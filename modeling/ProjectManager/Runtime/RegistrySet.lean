import ProjectManager.Runtime.RegistryAppend

/-!
# Setting a flag

`set_registry_enabled` sets the first flag in the block of the agent.  It is the agent's own, or that of an item below
that the block has swallowed: `flag_loads` says what the entries are behind the change, and `set_keepsFrame_iff` when the
other entries stay.
-/

namespace ProjectManager

open Lines Text

section Flags

variable {resolve : List Char → Val} {safeLoad : List Char → Except String Val} {a : AgentId}
  {pre post after front behind : List Line} {init next : List Item} {last : Item} {m : ℕ} {f f' : Field}
  {ps : List (ℕ × Field)} {es : List RegistryEntry} {enabled : Bool}

/-! ### The item of a flag -/

/-- A field in the middle of a text belongs to the item above it. -/
theorem parseItems_field (hpre : (parseItems pre).2 = init ++ [last]) (post : List Line) :
    parseItems (pre ++ .field m f :: post) =
      ((parseItems pre).1, init ++ last.withTail ((m, f) :: (parseItems post).1) :: (parseItems post).2) := by
  rw [parseItems_append_of_concat hpre]
  rfl

theorem column_replaced : (last.withTail ((m, f') :: ps)).column = (last.withTail ((m, f) :: ps)).column := by
  obtain ⟨indent, first, tail⟩ := last
  cases first with
  | some x => rfl
  | none => cases tail <;> rfl

/-- The layout of an item does not depend on what its fields say. -/
theorem aligned_replaced (h : (last.withTail ((m, f) :: ps)).Aligned) : (last.withTail ((m, f') :: ps)).Aligned := by
  obtain ⟨c, hc, hindent, htail⟩ := h
  refine ⟨c, column_replaced.trans hc, hindent, fun x hx => ?_⟩
  have hin : ∀ x ∈ last.tail ++ (m, f) :: ps, x.1 = c := htail
  obtain hx | hx := List.mem_append.1 hx
  · exact hin x (by simp [hx])
  · obtain rfl | hx := List.mem_cons.1 hx
    · exact hin (m, f) (by simp)
    · exact hin x (by simp [hx])

theorem level_replaced (h : Level (init ++ last.withTail ((m, f) :: ps) :: next)) :
    Level (init ++ last.withTail ((m, f') :: ps) :: next) := by
  have hne : ∀ f, init ++ last.withTail ((m, f) :: ps) :: next ≠ [] := fun f => by simp
  obtain ⟨n, hn⟩ := (level_iff (hne f)).1 h
  apply (level_iff (hne f')).2
  refine ⟨n, fun item hitem => ?_⟩
  have hlast := hn (last.withTail ((m, f) :: ps)) (by simp)
  obtain hitem | hitem := List.mem_append.1 hitem
  · exact hn item (by simp [hitem])
  · obtain rfl | hitem := List.mem_cons.1 hitem
    · exact ⟨hlast.1, aligned_replaced hlast.2⟩
    · exact hn item (by simp [hitem])

theorem fields_flag : (last.withTail ((m, f) :: ps)).fields = last.fields ++ f :: ps.map Prod.snd := by
  rw [fields_withTail, List.map_cons]

/-- The id of an item stays when a flag is set. -/
theorem value_id_replaced (hf : f.key = .enabled) (hf' : f'.key = .enabled) :
    (last.withTail ((m, f') :: ps)).value .id = (last.withTail ((m, f) :: ps)).value .id := by
  rw [value_eq, value_eq, fields_flag, fields_flag, fieldValue_append, fieldValue_append,
    fieldValue_cons_of_ne (by rw [hf']; decide), fieldValue_cons_of_ne (by rw [hf]; decide)]

/-- The flag of an item in which the key comes once. -/
theorem flag_of_field (hf : f.key = .enabled)
    (hkeys : ((last.withTail ((m, f) :: ps)).fields.map Field.key).Nodup) :
    (last.withTail ((m, f) :: ps)).flag resolve = (f.value.val resolve).truthy := by
  have hmem : f ∈ (last.withTail ((m, f) :: ps)).fields := by
    rw [fields_flag]
    simp
  have hvalue : (last.withTail ((m, f) :: ps)).value .enabled = some f.value := hf ▸ fieldValue_of_mem hkeys hmem
  unfold Item.flag
  rw [hvalue]

/-- What the text loads as when a flag in it is set. -/
theorem flag_loads (hf : f.key = .enabled) (hf' : f'.key = .enabled)
    (hkeys : ((last.withTail ((m, f) :: ps)).fields.map Field.key).Nodup)
    (hloads : Loads resolve (init ++ last.withTail ((m, f) :: ps) :: next) es) :
    ∃ id, es = entriesOf resolve init ++ ⟨id, (f.value.val resolve).truthy⟩ :: entriesOf resolve next ∧
      Loads resolve (init ++ last.withTail ((m, f') :: ps) :: next)
        (entriesOf resolve init ++ ⟨id, (f'.value.val resolve).truthy⟩ :: entriesOf resolve next) := by
  obtain ⟨hsome, rfl, hdistinct⟩ := loads_iff.1 hloads
  obtain ⟨e, he⟩ := Option.isSome_iff_exists.1 (hsome (last.withTail ((m, f) :: ps)) (by simp))
  obtain ⟨hid, hflag⟩ := entry_eq_some.1 he
  have hkeys' : ((last.withTail ((m, f') :: ps)).fields.map Field.key).Nodup := by
    rw [fields_flag, List.map_append, List.map_cons] at hkeys ⊢
    rw [hf']
    rw [hf] at hkeys
    exact hkeys
  have hentry : (last.withTail ((m, f) :: ps)).entry resolve = some ⟨e.id, (f.value.val resolve).truthy⟩ :=
    entry_eq_some.2 ⟨hid, flag_of_field hf hkeys⟩
  have hentry' : (last.withTail ((m, f') :: ps)).entry resolve = some ⟨e.id, (f'.value.val resolve).truthy⟩ := by
    apply entry_eq_some.2
    exact ⟨(agentId_congr (value_id_replaced hf hf')).trans hid, flag_of_field hf' hkeys'⟩
  rw [List.forall_mem_append, List.forall_mem_cons] at hsome
  rw [entriesOf_append, entriesOf_cons hentry] at hdistinct ⊢
  refine ⟨e.id, rfl, loads_between hsome.1 hsome.2.2 hentry' ?_⟩
  rw [List.map_append, List.map_cons] at hdistinct ⊢
  exact hdistinct

/-! ### The first flag of the block -/

theorem flagColumn_field (hf : f.key = .enabled) : (Line.field m f).flagColumn = some m :=
  if_pos hf

theorem field_of_flagColumn {L : Line} (h : L.flagColumn = some m) : ∃ f, L = .field m f ∧ f.key = .enabled := by
  unfold Line.flagColumn at h
  split at h
  · split at h
    · obtain rfl := Option.some.inj h
      exact ⟨_, rfl, ‹_›⟩
    · cases h
  · cases h

/-- Only the first flag of the block matters. -/
theorem setSafe_of_first (hblock : blockLines after = front ++ .field m f :: behind) (hf : f.key = .enabled)
    (hfront : ∀ L ∈ front, L.flagColumn = none) : SetSafe resolve enabled after ↔
      (enabled = true → (parseItems front).2 ≠ [] → (f.value.val resolve).truthy = true) := by
  constructor
  · intro h henabled hitems
    exact h henabled front m f behind hblock hf hfront hitems
  · intro h henabled front' m' f' behind' hblock' hf' hfront' hitems
    obtain ⟨rfl, heq, -⟩ := first_unique (p := fun L : Line => L.flagColumn.isSome) (hblock.symm.trans hblock')
      (by simp [flagColumn_field hf]) (by simp [flagColumn_field hf']) (fun L hL => by simp [hfront L hL])
      (fun L hL => by simp [hfront' L hL])
    obtain ⟨-, rfl⟩ := Line.field.inj heq
    exact h henabled hitems

theorem setSafe_of_none (h : ∀ L ∈ blockLines after, L.flagColumn = none) : SetSafe resolve enabled after := by
  intro _ front m f behind hblock hf
  have hno := h (.field m f) (hblock ▸ by simp)
  rw [flagColumn_field hf] at hno
  cases hno

/-- The fields before the first item stand on lines of their own. -/
theorem mem_lead {ls : List Line} {x : ℕ × Field} (h : x ∈ (parseItems ls).1) : .field x.1 x.2 ∈ ls := by
  induction ls with
  | nil => cases h
  | cons L ls ih =>
      cases L with
      | dash n first => cases h
      | field c f =>
          obtain rfl | h := List.mem_cons.1 h
          · exact List.mem_cons_self
          · exact List.mem_cons_of_mem _ (ih h)
      | filler b => exact List.mem_cons_of_mem _ (ih h)
      | agents => exact List.mem_cons_of_mem _ (ih h)
      | crowded => exact List.mem_cons_of_mem _ (ih h)

/-- An item that is written without a flag is enabled. -/
theorem flag_of_front {n k : ℕ} {w : Scalar} (hfront : ∀ L ∈ front, L.flagColumn = none) :
    Item.flag resolve ⟨n, some (k, ⟨.id, w⟩), (parseItems front).1⟩ = true := by
  have hvalue : Item.value ⟨n, some (k, ⟨.id, w⟩), (parseItems front).1⟩ .enabled = none := by
    rw [value_eq]
    apply fieldValue_eq_none
    intro f hf hkey
    obtain rfl | hf := List.mem_cons.1 hf
    · cases hkey
    · obtain ⟨x, hx, rfl⟩ := List.mem_map.1 hf
      have hno := hfront _ (mem_lead hx)
      rw [flagColumn_field hkey] at hno
      cases hno
  unfold Item.flag
  rw [hvalue]

/-- The agent has one entry. -/
theorem mem_around {x y : List RegistryEntry} {flag : Bool}
    (h : ((x ++ ⟨a.text, flag⟩ :: y).map RegistryEntry.id).Nodup) :
    ⟨a.text, enabled⟩ ∈ x ++ ⟨a.text, flag⟩ :: y ↔ enabled = flag := by
  constructor
  · intro hin
    have hmem : (⟨a.text, enabled⟩ : RegistryEntry) ∈ x ∨ (⟨a.text, enabled⟩ : RegistryEntry) ∈ y ∨ enabled = flag := by
      simpa [or_comm, or_assoc] using hin
    rw [List.map_append, List.map_cons, List.nodup_middle, List.nodup_cons, ← List.map_append] at h
    have hno : ∀ e ∈ x ++ y, e.id ≠ a.text := fun e he heq => h.1 (List.mem_map.2 ⟨e, he, heq⟩)
    obtain hx | hy | heq := hmem
    · exact absurd rfl (hno _ (List.mem_append_left y hx))
    · exact absurd rfl (hno _ (List.mem_append_right x hy))
    · exact heq
  · rintro rfl
    simp

theorem check_iff {es : List RegistryEntry} :
    (es.any fun e => decide (e.id = a.text) && decide (e.enabled = enabled)) = true ↔ ⟨a.text, enabled⟩ ∈ es := by
  rw [List.any_eq_true]
  constructor
  · rintro ⟨⟨id, flag⟩, he, hpass⟩
    obtain ⟨hid, hflag⟩ := (Bool.and_eq_true _ _).mp hpass
    obtain rfl : id = a.text := of_decide_eq_true hid
    obtain rfl : flag = enabled := of_decide_eq_true hflag
    exact he
  · intro he
    exact ⟨_, he, by simp⟩

/-- The frame behind the change of the first flag. -/
theorem set_first_entries (hyaml : ReadsBlocks resolve safeLoad) {prev : List Item} {n k : ℕ}
    (hfront : ∀ L ∈ front, L.flagColumn = none)
    (hinit : init ++ [last] = prev ++ ⟨n, some (k, ⟨.id, .plain a.chars⟩), (parseItems front).1⟩ :: (parseItems front).2)
    (hf : f.key = .enabled) (hkeys : ∀ item ∈ init ++ last.withTail ((m, f) :: ps) :: next,
      (item.fields.map Field.key).Nodup) (hloads : Loads resolve (init ++ last.withTail ((m, f) :: ps) :: next) es) :
    ∃ es', Loads resolve (init ++ last.withTail ((m, flagField enabled) :: ps) :: next) es' ∧
      ((⟨a.text, enabled⟩ ∈ es' → others a es' = others a es) ↔
        (enabled = true → (parseItems front).2 ≠ [] → (f.value.val resolve).truthy = true)) := by
  have hflag : ((flagField enabled).value.val resolve).truthy = enabled := by
    cases enabled
    · exact congrArg Val.truthy hyaml.plain_false
    · exact congrArg Val.truthy hyaml.plain_true
  have hlast : ((last.withTail ((m, f) :: ps)).fields.map Field.key).Nodup := hkeys _ (by simp)
  obtain ⟨id, hes, hloads'⟩ := flag_loads hf (rfl : (flagField enabled).key = .enabled) hlast hloads
  rw [hflag] at hloads'
  refine ⟨_, hloads', ?_⟩
  have hdistinct := hloads.distinct
  have hdistinct' := hloads'.distinct
  obtain hnil | ⟨ys, item, hconcat⟩ := List.eq_nil_or_concat (parseItems front).2
  · -- the flag is the agent's own
    rw [hnil] at hinit
    obtain ⟨rfl, hitem⟩ := List.append_inj' hinit rfl
    obtain rfl := List.singleton_inj.1 hitem
    have hvalue : Item.value (Item.withTail ⟨n, some (k, ⟨.id, .plain a.chars⟩), (parseItems front).1⟩ ((m, f) :: ps))
        .id = some (.plain a.chars) := fieldValue_of_mem hlast List.mem_cons_self
    have hid : id = a.text := by
      have haround := hes.symm.trans (loads_around hyaml hvalue hloads)
      exact congrArg RegistryEntry.id (List.cons.inj (List.append_cancel_left haround)).1
    rw [hes] at hdistinct
    constructor
    · intro _ _ hitems
      exact absurd hnil hitems
    · intro _ _
      rw [hes, others_split hid hdistinct, others_split hid hdistinct']
  · -- the flag belongs to an item that the block has swallowed
    rw [List.concat_eq_append] at hconcat
    rw [hconcat, ← List.cons_append, ← List.append_assoc] at hinit
    obtain ⟨rfl, -⟩ := List.append_inj' hinit rfl
    have hsplit : entriesOf resolve (prev ++ ⟨n, some (k, ⟨.id, .plain a.chars⟩), (parseItems front).1⟩ :: ys) =
        entriesOf resolve prev ++ ⟨a.text, true⟩ :: entriesOf resolve ys := by
      have hmem : ⟨n, some (k, ⟨.id, .plain a.chars⟩), (parseItems front).1⟩ ∈
          prev ++ ⟨n, some (k, ⟨.id, .plain a.chars⟩), (parseItems front).1⟩ :: ys := by simp
      have hown := hkeys _ (List.mem_append_left _ hmem)
      have hvalue : Item.value ⟨n, some (k, ⟨.id, .plain a.chars⟩), (parseItems front).1⟩ .id = some (.plain a.chars) :=
        fieldValue_of_mem hown List.mem_cons_self
      have hentry := entry_of_value hyaml hvalue ((loads_iff.1 hloads).1 _ (List.mem_append_left _ hmem))
      rw [flag_of_front hfront] at hentry
      rw [entriesOf_append, entriesOf_cons hentry]
    have hne : (parseItems front).2 ≠ [] := by
      rw [hconcat]
      exact List.append_ne_nil_of_right_ne_nil _ (List.cons_ne_nil _ _)
    rw [hsplit, List.append_assoc, List.cons_append] at hes hdistinct' ⊢
    rw [hes] at hdistinct ⊢
    rw [mem_around hdistinct', others_split rfl hdistinct, others_split rfl hdistinct', List.append_cancel_left_eq,
      List.append_cancel_left_eq, List.cons.injEq, RegistryEntry.mk.injEq]
    constructor
    · rintro h rfl -
      exact (h rfl).1.2.symm
    · rintro h rfl
      exact ⟨⟨rfl, (h rfl hne).symm⟩, rfl⟩

end Flags

/-! ### The edit -/

section Edit

variable {resolve : List Char → Val} {safeLoad : List Char → Except String Val} {a : AgentId} {file new : List Char}
  {items : List Item} {es : List RegistryEntry} {rs before after front behind : List ReadLine} {t r : ReadLine}
  {n k column : ℕ} {enabled : Bool}

/-- A field stands to the right of the first column. -/
theorem ReadLine.field_column {f : Field} (h : r.line = .field column f) : ∃ c, column = c + 1 := by
  obtain ⟨hshape, -⟩ := shape_of_scan r.reads r.single
  rw [h] at hshape
  generalize lineBody r.chars = body at hshape
  cases hshape with
  | field n => exact ⟨n, rfl⟩

theorem ReadLine.not_crowded (rs : List ReadLine) : .crowded ∉ rs.map ReadLine.line := by
  intro hin
  obtain ⟨r, -, hr⟩ := List.mem_map.1 hin
  exact r.single hr

/-- The check of `set_registry_enabled`. -/
def setCheck (a : AgentId) (enabled : Bool) (entries : List RegistryEntry) : Bool :=
  entries.any fun e => decide (e.id = a.text) && decide (e.enabled = enabled)

/-- The first flag of the block is set. -/
theorem set_first_keepsFrame (hyaml : ReadsBlocks resolve safeLoad) (h : BlockRegistry file (rs.map ReadLine.line) items)
    (hwhole : Whole (rs.map ReadLine.chars)) (hload : loadRegistry safeLoad file = .ok es)
    (htarget : Target a rs before t after) (ht : t.line = .dash n (some (k, ⟨.id, .plain a.chars⟩)))
    (hblock : blockOf after = front ++ r :: behind) (hfront : ∀ r ∈ front, r.line.flagColumn = none)
    (hr : r.line.flagColumn = some column)
    (hrun : (RegistryEdit.setEnabled enabled).run safeLoad a file = replaceValidated safeLoad file
      ((before ++ t :: front).map ReadLine.chars ++ enabledLine (List.replicate column ' ') enabled ::
        (behind ++ behindBlock after).map ReadLine.chars).flatten (setCheck a enabled)) :
    KeepsFrame safeLoad a file es (.setEnabled enabled) ↔ SetSafe resolve enabled (after.map ReadLine.line) := by
  obtain ⟨f, hline, hf⟩ := field_of_flagColumn hr
  obtain ⟨c, rfl⟩ := r.field_column hline
  generalize hpre : before ++ t :: front = pre at hrun
  generalize hpost : behind ++ behindBlock after = post at hrun
  have hrs : rs = pre ++ r :: post := by
    have hafter : after = front ++ r :: post := by
      rw [← hpost, ← List.cons_append, ← List.append_assoc, ← hblock, blockOf_append]
    rw [htarget.split, hafter, ← hpre, List.append_assoc, List.cons_append]
  have hlines : rs.map ReadLine.line = pre.map ReadLine.line ++ .field (c + 1) f :: post.map ReadLine.line := by
    rw [hrs, List.map_append, List.map_cons, hline]
  have hlines' : (pre ++ flagLine c enabled :: post).map ReadLine.line =
      pre.map ReadLine.line ++ .field (c + 1) (flagField enabled) :: post.map ReadLine.line := by
    rw [List.map_append, List.map_cons]
    rfl
  have hwhole' : Whole ((pre ++ flagLine c enabled :: post).map ReadLine.chars) := by
    rw [hrs, List.map_append, List.map_cons] at hwhole
    rw [List.map_append, List.map_cons]
    exact hwhole.replace (flagLine_fed c enabled)
  have hheader := h.header
  rw [hlines] at hheader
  have hheader' : HasHeader ((pre ++ flagLine c enabled :: post).map ReadLine.line) := by
    rw [hlines']
    apply hheader.replace (by simp) (by simp)
    have hno := hheader.not_mem (by simp) (by simp)
    simpa using hno
  have hbare : BareLevel ((pre ++ flagLine c enabled :: post).map ReadLine.line) := by
    apply bareLevel_of_dashes h.read
    intro n first hin
    rw [hlines'] at hin
    rw [hlines]
    simpa using hin
  have hitems : (parseItems (pre.map ReadLine.line)).2 = (parseItems (before.map ReadLine.line)).2 ++
      ⟨n, some (k, ⟨.id, .plain a.chars⟩), (parseItems (front.map ReadLine.line)).1⟩ ::
        (parseItems (front.map ReadLine.line)).2 := by
    rw [← hpre, List.map_append, List.map_cons, ht, parseItems_append_dash]
  obtain ⟨init, last, hconcat⟩ : ∃ init last, (parseItems (pre.map ReadLine.line)).2 = init ++ [last] := by
    obtain hnil | ⟨init, last, hconcat⟩ := List.eq_nil_or_concat (parseItems (pre.map ReadLine.line)).2
    · rw [hitems] at hnil
      exact absurd hnil (by simp)
    · exact ⟨init, last, by rw [hconcat, List.concat_eq_append]⟩
  obtain ⟨-, hparse, -, hlevel⟩ := readDoc_iff.1 h.read
  rw [hlines, parseItems_field hconcat] at hparse
  obtain ⟨hlead, rfl⟩ := Prod.mk.inj hparse
  have hfront' : ∀ L ∈ front.map ReadLine.line, L.flagColumn = none := by
    intro L hL
    obtain ⟨r, hr, rfl⟩ := List.mem_map.1 hL
    exact hfront r hr
  have hblock' : blockLines (after.map ReadLine.line) =
      front.map ReadLine.line ++ .field (c + 1) f :: behind.map ReadLine.line := by
    rw [blockLines_map, hblock, List.map_append, List.map_cons, hline]
  obtain ⟨es', hloads', hiff⟩ : ∃ es', Loads resolve (init ++ last.withTail ((c + 1, flagField enabled) ::
      (parseItems (post.map ReadLine.line)).1) :: (parseItems (post.map ReadLine.line)).2) es' ∧
        ((⟨a.text, enabled⟩ ∈ es' → others a es' = others a es) ↔ (enabled = true →
          (parseItems (front.map ReadLine.line)).2 ≠ [] → (f.value.val resolve).truthy = true)) :=
    set_first_entries hyaml hfront' (hconcat.symm.trans hitems) hf h.keys (h.loads hyaml hload)
  have hload' : loadRegistry safeLoad ((pre ++ flagLine c enabled :: post).map ReadLine.chars).flatten = .ok es' := by
    refine (load_lines hyaml hwhole' hheader' hbare).2 ⟨_, readDoc_iff.2 ⟨?_, ?_, ?_, ?_⟩, hloads'⟩
    · exact ReadLine.not_crowded _
    · rw [hlines', parseItems_field hconcat, hlead]
    · simp
    · exact level_replaced hlevel
  rw [List.map_append, List.map_cons] at hload'
  rw [keepsFrame_of_load hrun hload', setSafe_of_first hblock' hf hfront', ← hiff]
  constructor
  · intro hkeep hmem
    exact (hkeep (check_iff.2 hmem)).1
  · intro hothers hcheck
    exact ⟨hothers (check_iff.1 hcheck), check_iff.1 hcheck⟩

/-- A flag is put in behind the line of the agent. -/
theorem set_new_keepsFrame (hyaml : ReadsBlocks resolve safeLoad) (h : BlockRegistry file (rs.map ReadLine.line) items)
    (hwhole : Whole (rs.map ReadLine.chars)) (hload : loadRegistry safeLoad file = .ok es)
    (htarget : Target a rs before t after) (ht : t.line = .dash n (some (k, ⟨.id, .plain a.chars⟩)))
    (hfed : Fed t.chars)
    (hrun : (RegistryEdit.setEnabled enabled).run safeLoad a file = replaceValidated safeLoad file
      ((before ++ [t]).map ReadLine.chars ++ enabledLine (List.replicate (n + 2) ' ') enabled ::
        after.map ReadLine.chars).flatten (setCheck a enabled)) :
    KeepsFrame safeLoad a file es (.setEnabled enabled) := by
  let written := before ++ t :: flagLine (n + 1) enabled :: after
  have htext : (before ++ [t]).map ReadLine.chars ++ enabledLine (List.replicate (n + 2) ' ') enabled ::
      after.map ReadLine.chars = written.map ReadLine.chars := by
    simp [written, flagLine]
  have hrs : rs.map ReadLine.line = before.map ReadLine.line ++ t.line :: after.map ReadLine.line := by
    rw [htarget.split, List.map_append, List.map_cons]
  have hlines : written.map ReadLine.line =
      before.map ReadLine.line ++ t.line :: .field (n + 2) (flagField enabled) :: after.map ReadLine.line := by
    simp [written, flagLine]
  have hwhole' : Whole (written.map ReadLine.chars) := by
    rw [htarget.split, List.map_append, List.map_cons] at hwhole
    rw [List.map_append, List.map_cons, List.map_cons]
    apply Whole.append (hwhole.fed_of_append (List.cons_ne_nil _ _))
    have hafter : Whole (after.map ReadLine.chars) :=
      hwhole.sublist ((List.sublist_cons_self _ _).trans (List.sublist_append_right _ _))
    have hfront : ∀ l ∈ [t.chars, (flagLine (n + 1) enabled).chars], Fed l := by
      intro l hl
      obtain rfl | hl := List.mem_cons.1 hl
      · exact hfed
      · rw [List.mem_singleton.1 hl]
        exact flagLine_fed (n + 1) enabled
    exact Whole.append hfront hafter
  have hheader := h.header
  rw [hrs, ht] at hheader
  have hheader' : HasHeader (written.map ReadLine.line) := by
    rw [hlines, ht]
    apply hheader.replace (by simp) (by simp)
    have hno := hheader.not_mem (by simp) (by simp)
    simpa using hno
  have hbare : BareLevel (written.map ReadLine.line) := by
    apply bareLevel_of_dashes h.read
    intro m first hin
    rw [hlines] at hin
    rw [hrs]
    simpa using hin
  obtain ⟨-, hparse, -⟩ := readDoc_iff.1 h.read
  rw [hrs, ht, parseItems_append_dash] at hparse
  obtain ⟨-, rfl⟩ := Prod.mk.inj hparse
  have hitem : (⟨n, some (k, ⟨.id, .plain a.chars⟩), (parseItems (after.map ReadLine.line)).1⟩ : Item) ∈
      (parseItems (before.map ReadLine.line)).2 ++
        ⟨n, some (k, ⟨.id, .plain a.chars⟩), (parseItems (after.map ReadLine.line)).1⟩ ::
          (parseItems (after.map ReadLine.line)).2 := by simp
  have hvalue : Item.value ⟨n, some (k, ⟨.id, .plain a.chars⟩), (parseItems (after.map ReadLine.line)).1⟩ .id =
      some (.plain a.chars) := fieldValue_of_mem (h.keys _ hitem) List.mem_cons_self
  rw [htext] at hrun
  apply (keepsFrame_replace hrun).2
  intro es' hload' hcheck
  refine ⟨?_, check_iff.1 hcheck⟩
  obtain ⟨items', hread', hloads'⟩ := (load_lines hyaml hwhole' hheader' hbare).1 hload'
  obtain ⟨-, hparse', -⟩ := readDoc_iff.1 hread'
  rw [hlines, ht, parseItems_append_dash] at hparse'
  obtain ⟨-, rfl⟩ := Prod.mk.inj hparse'
  have hvalue' : Item.value ⟨n, some (k, ⟨.id, .plain a.chars⟩),
      (n + 2, flagField enabled) :: (parseItems (after.map ReadLine.line)).1⟩ .id = some (.plain a.chars) := by
    rw [value_eq] at hvalue ⊢
    calc fieldValue ([⟨.id, .plain a.chars⟩] ++ flagField enabled ::
          (parseItems (after.map ReadLine.line)).1.map Prod.snd) .id
        = fieldValue ([⟨.id, .plain a.chars⟩] ++ (parseItems (after.map ReadLine.line)).1.map Prod.snd) .id := by
          rw [fieldValue_append, fieldValue_append, fieldValue_cons_of_ne (by decide : EntryKey.enabled ≠ .id)]
      _ = some (.plain a.chars) := hvalue
  rw [others_of_loads hyaml hvalue' hloads', others_of_loads hyaml hvalue (h.loads hyaml hload)]
  rfl

/-- The flag comes to stand on the last line, which has no line feed. -/
theorem set_joined_keepsFrame (hyaml : ReadsBlocks resolve safeLoad) (h : BlockRegistry file (rs.map ReadLine.line) items)
    (hwhole : Whole (rs.map ReadLine.chars)) (hload : loadRegistry safeLoad file = .ok es)
    (hrs : rs = before ++ [t]) (ht : t.line = .dash n (some (k, ⟨.id, .plain a.chars⟩))) (hunfed : Unfed t.chars)
    (hrun : (RegistryEdit.setEnabled enabled).run safeLoad a file = replaceValidated safeLoad file
      ((before ++ [t]).map ReadLine.chars ++ [enabledLine (List.replicate (n + 2) ' ') enabled]).flatten
      (setCheck a enabled)) :
    KeepsFrame safeLoad a file es (.setEnabled enabled) := by
  subst hrs
  have hfront : ∀ l ∈ before.map ReadLine.chars, Fed l := by
    rw [List.map_append] at hwhole
    exact hwhole.fed_of_append (by simp)
  have htext : ((before ++ [t]).map ReadLine.chars ++ [enabledLine (List.replicate (n + 2) ' ') enabled]).flatten =
      (before.map ReadLine.chars ++ [t.chars ++ enabledLine (List.replicate (n + 2) ' ') enabled]).flatten := by
    simp
  rw [htext] at hrun
  apply (keepsFrame_replace hrun).2
  intro es' hload' hcheck
  have hfed : ∀ {L : Line}, scanLine (t.chars ++ enabledLine (List.replicate (n + 2) ' ') enabled) = some L →
      Whole (before.map ReadLine.chars ++ [t.chars ++ enabledLine (List.replicate (n + 2) ' ') enabled]) := by
    intro L hL
    have hlast : Fed (t.chars ++ enabledLine (List.replicate (n + 2) ' ') enabled) := by
      apply fed_of_last hL
      rw [enabledLine, ← List.append_assoc]
      exact List.getLast?_concat
    exact Whole.append hfront (Whole.of_fed (List.forall_mem_singleton.2 hlast))
  obtain hcrowded | hsame := scanLine_joined enabled ht hunfed
  · exfalso
    have hlines : BlockLines (before.map ReadLine.chars ++
        [t.chars ++ enabledLine (List.replicate (n + 2) ' ') enabled]).flatten
        (before.map ReadLine.line ++ [.crowded]) := by
      unfold BlockLines
      rw [keepLines_flatten (hfed hcrowded), List.map_append, List.map_append, List.map_map, List.map_map,
        List.map_singleton, List.map_singleton, hcrowded, List.append_cancel_right_eq]
      exact List.map_congr_left fun r _ => r.reads
    have hheader := h.header
    rw [List.map_append, List.map_singleton, ht] at hheader
    have hheader' : HasHeader (before.map ReadLine.line ++ [.crowded]) := hheader.replace (by simp) (by simp) (by simp)
    have hbare : BareLevel (before.map ReadLine.line ++ [.crowded]) := by
      apply bareLevel_of_dashes h.read
      intro m first hin
      obtain hin | hin := List.mem_append.1 hin
      · rw [List.map_append]
        exact List.mem_append_left _ hin
      · cases List.mem_singleton.1 hin
    obtain ⟨items', hread', -⟩ := (load_iff hyaml hlines hheader' hbare).1 hload'
    exact (readDoc_iff.1 hread').1 (List.mem_append_right _ (List.mem_singleton_self _))
  · let joined : ReadLine := ⟨_, t.line, hsame, t.single⟩
    have hchars : before.map ReadLine.chars ++ [t.chars ++ enabledLine (List.replicate (n + 2) ' ') enabled] =
        (before ++ [joined]).map ReadLine.chars := by
      rw [List.map_append]
      rfl
    have hlines : (before ++ [joined]).map ReadLine.line = (before ++ [t]).map ReadLine.line := by
      rw [List.map_append, List.map_append]
      rfl
    have hwhole' := hfed hsame
    rw [hchars] at hload' hwhole'
    have hheader : HasHeader ((before ++ [joined]).map ReadLine.line) := hlines ▸ h.header
    have hbare : BareLevel ((before ++ [joined]).map ReadLine.line) := by
      rw [hlines]
      exact bareLevel_of_dashes h.read fun _ _ hd => hd
    obtain ⟨items', hread', hloads'⟩ := (load_lines hyaml hwhole' hheader hbare).1 hload'
    rw [hlines, h.read] at hread'
    obtain rfl := Option.some.inj hread'
    have hsame : es' = es := (loads_iff.1 hloads').2.1.trans (loads_iff.1 (h.loads hyaml hload)).2.1.symm
    rw [hsame] at hcheck ⊢
    exact ⟨rfl, check_iff.1 hcheck⟩

/-- When `set_registry_enabled` keeps the other entries. -/
theorem set_keepsFrame_iff {ls : List Line} (hyaml : ReadsBlocks resolve safeLoad) (h : BlockRegistry file ls items)
    (hload : loadRegistry safeLoad file = .ok es) :
    KeepsFrame safeLoad a file es (.setEnabled enabled) ↔ EditSafe resolve ls a (.setEnabled enabled) := by
  obtain ⟨rs, hchars, rfl, hwhole, -⟩ := h.exists_lines
  cases hbounds : entryBounds (rs.map ReadLine.chars) a with
  | none =>
      have hrun : (RegistryEdit.setEnabled enabled).run safeLoad a file = (.error .unknownAgent, file) := by
        change setRegistryEnabled safeLoad a enabled file = _
        unfold setRegistryEnabled
        rw [hchars]
        dsimp only
        rw [hbounds]
      constructor
      · intro _ before t after htarget
        exact absurd htarget (not_isTarget hbounds)
      · intro _
        unfold KeepsFrame
        rw [hrun]
  | some bounds =>
      obtain ⟨start, stop⟩ := bounds
      have hrun : (RegistryEdit.setEnabled enabled).run safeLoad a file = replaceValidated safeLoad file
          (setEnabledLines (rs.map ReadLine.chars) start stop enabled).flatten (setCheck a enabled) := by
        change setRegistryEnabled safeLoad a enabled file = _
        unfold setRegistryEnabled
        rw [hchars]
        dsimp only
        rw [hbounds]
        rfl
      obtain ⟨before, t, after, htarget, hstart, hstop⟩ := bounds_split hbounds
      obtain ⟨n, k, ht⟩ := htarget.dash
      have hsafe : EditSafe resolve (rs.map ReadLine.line) a (.setEnabled enabled) ↔
          SetSafe resolve enabled (after.map ReadLine.line) := by
        constructor
        · intro hall
          exact hall _ _ _ htarget.isTarget
        · intro hone before' t' after' htarget'
          obtain ⟨-, rfl⟩ := htarget.isTarget.unique htarget'
          exact hone
      rw [hsafe]
      obtain ⟨front, r, behind, column, hblock, hfront, hcolumn, hwritten⟩ | ⟨hnone, hwritten⟩ :=
        flagged_lines enabled htarget ht hstart hstop
      · rw [hwritten] at hrun
        exact set_first_keepsFrame hyaml h hwhole hload htarget ht hblock hfront hcolumn hrun
      · rw [hwritten] at hrun
        apply iff_of_true
        · have hmem : t.chars ∈ rs.map ReadLine.chars := by
            rw [htarget.split]
            simp
          obtain hfed | hunfed := hwhole.lines t.chars hmem
          · exact set_new_keepsFrame hyaml h hwhole hload htarget ht hfed hrun
          · -- only the last line is without its line feed
            have hnil : after = [] := by
              by_contra hne
              have hlines : rs.map ReadLine.chars = (before ++ [t]).map ReadLine.chars ++ after.map ReadLine.chars := by
                rw [htarget.split]
                simp
              rw [hlines] at hwhole
              have hfed : Fed t.chars := hwhole.fed_of_append (by simpa using hne) _ (by simp)
              exact absurd (hunfed.1 '\n' (List.mem_of_getLast? (fed_getLast hfed))) (by decide)
            subst hnil
            exact set_joined_keepsFrame hyaml h hwhole hload htarget.split ht hunfed hrun
        · apply setSafe_of_none
          rw [blockLines_map]
          intro L hL
          obtain ⟨r, hr, rfl⟩ := List.mem_map.1 hL
          exact hnone r hr

end Edit

end ProjectManager
