import ProjectManager.Runtime.RegistryLines

/-!
# The items of a registry

What the items of a text are when its lines are put together from parts (`parseItems_append_of_nil`,
`parseItems_append_of_concat`): fields at the beginning of the second part go to the last item of the first one.  And
what loading makes of the items: `load_iff` says when a text in block style loads, and with which entries.
-/

namespace ProjectManager

open Text

/-! ### Parts of a text -/

section Parts

variable {x y : List Line} {init : List Item} {last : Item}

/-- An item with more fields behind its own. -/
def Item.withTail (item : Item) (fs : List (ℕ × Field)) : Item :=
  { item with tail := item.tail ++ fs }

/-- Fields behind a part without items. -/
theorem parseItems_append_of_nil (h : (parseItems x).2 = []) (y : List Line) :
    parseItems (x ++ y) = ((parseItems x).1 ++ (parseItems y).1, (parseItems y).2) := by
  induction x with
  | nil => rfl
  | cons L x ih =>
      cases L with
      | dash n first => cases h
      | field c f =>
          rw [List.cons_append, parseItems, ih h]
          rfl
      | filler b => exact ih h
      | agents => exact ih h
      | crowded => exact ih h

/-- Fields behind a part with items go to its last item. -/
theorem parseItems_append_of_concat (h : (parseItems x).2 = init ++ [last]) (y : List Line) :
    parseItems (x ++ y) = ((parseItems x).1, init ++ last.withTail (parseItems y).1 :: (parseItems y).2) := by
  induction x generalizing init with
  | nil => exact absurd h (List.append_ne_nil_of_right_ne_nil _ (List.cons_ne_nil _ _)).symm
  | cons L x ih =>
      cases L with
      | dash n first =>
          rw [parseItems] at h
          rw [List.cons_append, parseItems, parseItems]
          cases init with
          | nil =>
              obtain ⟨rfl, hnil⟩ := List.cons.inj h
              rw [parseItems_append_of_nil hnil]
              rfl
          | cons item init =>
              obtain ⟨rfl, hrest⟩ := List.cons.inj h
              rw [ih hrest]
              rfl
      | field c f =>
          rw [List.cons_append, parseItems, ih h]
          rfl
      | filler b => exact ih h
      | agents => exact ih h
      | crowded => exact ih h

/-- A part that begins with no field stays by itself. -/
theorem parseItems_append_dash (x y : List Line) (n : ℕ) (first : Option (ℕ × Field)) :
    parseItems (x ++ .dash n first :: y) =
      ((parseItems x).1, (parseItems x).2 ++ ⟨n, first, (parseItems y).1⟩ :: (parseItems y).2) := by
  obtain hnil | ⟨init, last, hconcat⟩ := List.eq_nil_or_concat (parseItems x).2
  · rw [parseItems_append_of_nil hnil, hnil, parseItems, List.append_nil]
    rfl
  · rw [List.concat_eq_append] at hconcat
    rw [parseItems_append_of_concat hconcat, hconcat, parseItems, Item.withTail, List.append_nil, List.append_assoc]
    rfl

/-- The dashes of a text are those of its items. -/
theorem mem_items_iff {ls : List Line} {n : ℕ} {first : Option (ℕ × Field)} :
    .dash n first ∈ ls ↔ ∃ item ∈ (parseItems ls).2, item.indent = n ∧ item.first = first := by
  induction ls with
  | nil => simp [parseItems]
  | cons L ls ih =>
      rw [List.mem_cons]
      cases L with
      | dash m first' =>
          rw [parseItems, List.exists_mem_cons_iff, ih, Line.dash.injEq]
          constructor
          · rintro (⟨rfl, rfl⟩ | h)
            · exact .inl ⟨rfl, rfl⟩
            · exact .inr h
          · rintro (⟨rfl, rfl⟩ | h)
            · exact .inl ⟨rfl, rfl⟩
            · exact .inr h
      | field c f => simpa [parseItems] using ih
      | filler b => simpa [parseItems] using ih
      | agents => simpa [parseItems] using ih
      | crowded => simpa [parseItems] using ih

end Parts

/-! ### Headers -/

section Headers

variable {before after ls : List Line} {L : Line}

/-- What stands behind the header of a text may change. -/
theorem HasHeader.replace (h : HasHeader (before ++ L :: after)) (hL : L ≠ .agents) (hfiller : ∀ b, L ≠ .filler b)
    {new : List Line} (hnew : .agents ∉ new) : HasHeader (before ++ new) := by
  obtain ⟨lead, body, heq, hlead, hbody⟩ := h
  obtain ⟨gap, hgap, hrest⟩ | ⟨gap, rfl, hrest⟩ := List.append_eq_append_iff.1 heq
  · -- the line would stand before the header
    exfalso
    cases gap with
    | nil => exact hL (List.cons.inj hrest).1
    | cons L' gap =>
        obtain ⟨b, hb⟩ := hlead L' (hgap ▸ by simp)
        exact hfiller b ((List.cons.inj hrest).1.trans hb)
  · cases gap with
    | nil => exact absurd (List.cons.inj hrest).1.symm hL
    | cons L' gap =>
        obtain ⟨rfl, rfl⟩ := List.cons.inj hrest
        refine ⟨lead, gap ++ new, by simp, hlead, ?_⟩
        intro hin
        obtain hin | hin := List.mem_append.1 hin
        · exact hbody (List.mem_append_left _ hin)
        · exact hnew hin

/-- Lines may be written behind a text. -/
theorem HasHeader.append (h : HasHeader ls) {new : List Line} (hnew : .agents ∉ new) : HasHeader (ls ++ new) := by
  obtain ⟨lead, body, rfl, hlead, hbody⟩ := h
  refine ⟨lead, body ++ new, by simp, hlead, ?_⟩
  intro hin
  exact (List.mem_append.1 hin).elim hbody hnew

/-- No second header stands behind an item. -/
theorem HasHeader.not_mem (h : HasHeader (before ++ L :: after)) (hL : L ≠ .agents) (hfiller : ∀ b, L ≠ .filler b) :
    .agents ∉ after := by
  obtain ⟨lead, body, heq, hlead, hbody⟩ := h
  obtain ⟨gap, hgap, hrest⟩ | ⟨gap, rfl, hrest⟩ := List.append_eq_append_iff.1 heq
  · exfalso
    cases gap with
    | nil => exact hL (List.cons.inj hrest).1
    | cons L' gap =>
        obtain ⟨b, hb⟩ := hlead L' (hgap ▸ by simp)
        exact hfiller b ((List.cons.inj hrest).1.trans hb)
  · cases gap with
    | nil => exact absurd (List.cons.inj hrest).1.symm hL
    | cons L' gap =>
        obtain ⟨rfl, rfl⟩ := List.cons.inj hrest
        exact fun hin => hbody (by simp [hin])

end Headers

/-! ### Entries -/

section Entries

variable {resolve : List Char → Val} {safeLoad : List Char → Except String Val} {items : List Item}
  {es : List RegistryEntry}

/-- The flag of an item; it is set when there is no field for it. -/
def Item.flag (resolve : List Char → Val) (item : Item) : Bool :=
  match item.value .enabled with
  | some s => (s.val resolve).truthy
  | none => true

/-- The id of an item, as it is checked. -/
def Item.agentId? (resolve : List Char → Val) (item : Item) : Option String :=
  match item.value .id with
  | some s =>
      match s.val resolve with
      | .str rawId =>
          if strip rawId = "" then none else if isAgentId (strip rawId).toList then some (strip rawId) else none
      | _ => none
  | none => none

/-- The entry of an item. -/
def Item.entry (resolve : List Char → Val) (item : Item) : Option RegistryEntry :=
  (item.agentId? resolve).map fun id => ⟨id, item.flag resolve⟩

/-- The entries that the items load as. -/
structure Loads (resolve : List Char → Val) (items : List Item) (es : List RegistryEntry) : Prop where
  entries : items.map (Item.entry resolve) = es.map some
  distinct : (es.map RegistryEntry.id).Nodup

theorem EntryKey.text_beq (k k' : EntryKey) : (k.text == k'.text) = decide (k = k') := by
  cases k <;> cases k' <;> decide

theorem lookup_filterMap {v : EntryKey → Option Val} {key : EntryKey} (keys : List EntryKey)
    (h : key ∈ keys ∨ v key = none) :
    (keys.filterMap fun k => (v k).map fun s => (k.text, s)).lookup key.text = v key := by
  induction keys with
  | nil => exact (h.resolve_left List.not_mem_nil).symm
  | cons k keys ih =>
      cases hk : v k with
      | none =>
          rw [List.filterMap_cons_none (by rw [hk]; rfl)]
          apply ih
          obtain h | h := h
          · obtain rfl | h := List.mem_cons.1 h
            · exact .inr hk
            · exact .inl h
          · exact .inr h
      | some s =>
          rw [List.filterMap_cons_some (by rw [hk]; rfl), List.lookup_cons, EntryKey.text_beq]
          by_cases heq : key = k
          · rw [decide_eq_true heq, heq, hk]
          · rw [decide_eq_false heq]
            apply ih
            exact h.imp_left fun h => (List.mem_cons.1 h).resolve_left heq

theorem item_lookup (resolve : List Char → Val) (item : Item) (key : EntryKey) : ∃ raw, item.val resolve = .dict raw ∧
    raw.lookup key.text = (item.value key).map (Scalar.val resolve) := by
  refine ⟨_, rfl, ?_⟩
  have hmap : ((item.fields.map Field.key).eraseDups.filterMap fun key =>
      (item.value key).map fun s => (key.text, s.val resolve)) =
        (item.fields.map Field.key).eraseDups.filterMap fun k =>
          ((item.value k).map (Scalar.val resolve)).map fun s => (k.text, s) := by
    simp [Function.comp_def]
  rw [hmap]
  apply lookup_filterMap (v := fun k => (item.value k).map (Scalar.val resolve))
  by_cases hkey : key ∈ item.fields.map Field.key
  · exact .inl (List.mem_eraseDups.2 hkey)
  · right
    have hnone : (item.fields.filter fun f => decide (f.key = key)) = [] := by
      rw [List.filter_eq_nil_iff]
      intro f hf h
      exact hkey (List.mem_map.2 ⟨f, hf, of_decide_eq_true h⟩)
    unfold Item.value
    rw [hnone]
    rfl

/-- Loading one mapping. -/
theorem loadEntry_val (item : Item) (e : RegistryEntry) :
    loadEntry (item.val resolve) = .ok e ↔ item.entry resolve = some e := by
  obtain ⟨raw, hraw, hid⟩ := item_lookup resolve item .id
  obtain ⟨raw', hraw', henabled⟩ := item_lookup resolve item .enabled
  obtain rfl : raw' = raw := Val.dict.inj (hraw'.symm.trans hraw)
  have hflag : ((raw'.lookup "enabled").getD (.bool true)).truthy = item.flag resolve := by
    have henabled : raw'.lookup "enabled" = (item.value .enabled).map (Scalar.val resolve) := henabled
    unfold Item.flag
    rw [henabled]
    cases item.value .enabled <;> rfl
  have hget : dictGet raw' "id" = ((item.value .id).map (Scalar.val resolve)).getD .none := congrArg (·.getD .none) hid
  rw [hraw]
  unfold Item.entry Item.agentId?
  simp only [loadEntry, hget, hflag]
  cases item.value .id with
  | none => simp
  | some s =>
      rw [Option.map_some, Option.getD_some]
      dsimp only
      cases s.val resolve with
      | str rawId =>
          dsimp only
          by_cases hempty : strip rawId = ""
          · simp [hempty]
          · by_cases hid : isAgentId (strip rawId).toList = true
            · simp [hempty, hid]
            · simp [hempty, hid]
      | _ => simp

/-- The loop over the agents: every entry is loaded, and no id comes twice. -/
theorem loadEntries_ok_iff (seen : List String) (raws : List Val) (es : List RegistryEntry) :
    loadEntries seen raws = .ok es ↔
      raws.map loadEntry = es.map .ok ∧ (es.map RegistryEntry.id).Nodup ∧ ∀ e ∈ es, e.id ∉ seen := by
  induction raws generalizing seen es with
  | nil =>
      rw [loadEntries]
      constructor
      · intro h
        obtain rfl := Except.ok.inj h
        simp
      · rintro ⟨h, -⟩
        cases es with
        | nil => rfl
        | cons e es => cases h
  | cons raw raws ih =>
      rw [loadEntries]
      cases hraw : loadEntry raw with
      | error err =>
          constructor
          · intro h; cases h
          · rintro ⟨h, -⟩
            cases es with
            | nil => cases h
            | cons e es =>
                rw [List.map_cons, hraw] at h
                cases (List.cons.inj h).1
      | ok entry =>
          dsimp only
          split
          case isTrue hseen =>
            constructor
            · intro h; cases h
            · rintro ⟨h, -, hes⟩
              cases es with
              | nil => cases h
              | cons e es =>
                  rw [List.map_cons, hraw] at h
                  obtain rfl := Except.ok.inj (List.cons.inj h).1
                  exact absurd hseen (hes _ List.mem_cons_self)
          case isFalse hseen =>
            constructor
            · intro h
              cases hrest : loadEntries (seen ++ [entry.id]) raws with
              | error err =>
                  rw [hrest] at h
                  cases h
              | ok rest =>
                  rw [hrest] at h
                  obtain rfl := Except.ok.inj h
                  obtain ⟨hmap, hnodup, hnew⟩ := (ih _ _).1 hrest
                  refine ⟨by rw [List.map_cons, List.map_cons, hraw, hmap], ?_, ?_⟩
                  · rw [List.map_cons, List.nodup_cons]
                    refine ⟨fun hin => ?_, hnodup⟩
                    obtain ⟨e, he, heq⟩ := List.mem_map.1 hin
                    exact hnew e he (by rw [heq]; simp)
                  · refine List.forall_mem_cons.2 ⟨hseen, fun e he hin => hnew e he (List.mem_append_left _ hin)⟩
            · rintro ⟨h, hnodup, hes⟩
              cases es with
              | nil => cases h
              | cons e es =>
                  rw [List.map_cons, List.map_cons, hraw] at h
                  obtain ⟨hhead, htail⟩ := List.cons.inj h
                  obtain rfl := Except.ok.inj hhead
                  rw [List.map_cons, List.nodup_cons] at hnodup
                  rw [List.forall_mem_cons] at hes
                  have hrest : loadEntries (seen ++ [entry.id]) raws = .ok es := by
                    refine (ih _ _).2 ⟨htail, hnodup.2, fun e he hin => ?_⟩
                    obtain hin | hin := List.mem_append.1 hin
                    · exact hes.2 e he hin
                    · exact hnodup.1 (List.mem_map.2 ⟨e, he, List.mem_singleton.1 hin⟩)
                  rw [hrest]
                  rfl

/-- Loading a well laid out registry. -/
theorem loadEntries_items : loadEntries [] (items.map (Item.val resolve)) = .ok es ↔ Loads resolve items es := by
  have hmap : (items.map (Item.val resolve)).map loadEntry = es.map .ok ↔
      items.map (Item.entry resolve) = es.map some := by
    induction items generalizing es with
    | nil => cases es <;> simp
    | cons item items ih =>
        cases es with
        | nil => simp
        | cons e es =>
            simp only [List.map_cons, List.cons.injEq, loadEntry_val]
            rw [ih]
  rw [loadEntries_ok_iff, hmap]
  constructor
  · rintro ⟨hentries, hdistinct, -⟩
    exact ⟨hentries, hdistinct⟩
  · rintro ⟨hentries, hdistinct⟩
    exact ⟨hentries, hdistinct, fun _ _ => List.not_mem_nil⟩

/-- Only mappings are loaded. -/
theorem hasMappings_of_load {doc : Val} (h : (match doc.orElse (.dict []) with
    | .dict entries =>
        match dictGet entries "agents" with
        | .list agents => loadEntries [] agents
        | _ => .error .noAgents
    | _ => .error .noAgents) = .ok es) : HasMappings doc := by
  have hdict : ∀ {raws : List Val}, loadEntries [] raws = .ok es → ∀ raw ∈ raws, ∃ entries, raw = .dict entries := by
    intro raws hraws raw hraw
    obtain ⟨hmap, -⟩ := (loadEntries_ok_iff _ _ _).1 hraws
    have hin : loadEntry raw ∈ es.map .ok := hmap ▸ List.mem_map_of_mem hraw
    obtain ⟨e, -, he⟩ := List.mem_map.1 hin
    cases raw with
    | dict entries => exact ⟨entries, rfl⟩
    | _ => cases he
  split at h
  · rename_i entries hentries
    split at h
    · rename_i agents hagents
      refine ⟨entries, agents, ?_, hagents, hdict h⟩
      unfold Val.orElse at hentries
      split at hentries
      · exact hentries
      · obtain rfl := Val.dict.inj hentries
        cases hagents
    · cases h
  · cases h

/-- When a text in block style loads. -/
theorem load_iff (hyaml : ReadsBlocks resolve safeLoad) {text : List Char} {ls : List Line} (hlines : BlockLines text ls)
    (hheader : HasHeader ls) (hbare : BareLevel ls) :
    loadRegistry safeLoad text = .ok es ↔ ∃ items, readDoc ls = some items ∧ Loads resolve items es := by
  cases hread : readDoc ls with
  | some items =>
      have hload : loadRegistry safeLoad text = loadEntries [] (items.map (Item.val resolve)) := by
        unfold loadRegistry
        rw [hyaml.reads text ls items hlines hheader hread]
        rfl
      rw [hload, loadEntries_items]
      simp
  | none =>
      constructor
      · intro h
        exfalso
        unfold loadRegistry at h
        split at h
        · cases h
        · rename_i doc hdoc
          exact hyaml.rejects text ls hlines hheader hbare hread doc hdoc (hasMappings_of_load h)
      · rintro ⟨items, h, -⟩
        cases h

end Entries

end ProjectManager
