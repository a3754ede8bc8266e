import ProjectManager.Runtime.RegistrySet

/-!
# Removing an entry

`remove_registry_entry` drops the block of the agent.  A block can hold more than the agent's own item, the items that do
not begin with their id, and less, the fields behind a comment in the first column, which go to the item above:
`remove_keepsFrame_iff` says when the other entries stay.
-/

namespace ProjectManager

open Lines Text

section Entries

variable {resolve : List Char → Val} {safeLoad : List Char → Except String Val} {a : AgentId}
  {x next swallowed : List Item} {above target last : Item} {orphans : List (ℕ × Field)} {es es' : List RegistryEntry}

/-! ### The entries that are left -/

/-- Entries with ids of the others are those of others. -/
theorem clean_of_sublist (hids : (es'.map RegistryEntry.id).Sublist ((others a es).map RegistryEntry.id))
    (hdistinct : (es.map RegistryEntry.id).Nodup) :
    (es'.map RegistryEntry.id).Nodup ∧ (∀ e ∈ es', e.id ≠ a.text) ∧ others a es' = es' := by
  have hclean : ∀ e ∈ es', e.id ≠ a.text := by
    intro e he
    obtain ⟨e', he', hid⟩ := List.mem_map.1 (hids.subset (List.mem_map_of_mem he))
    rw [← hid]
    exact of_decide_eq_true (List.mem_filter.1 he').2
  refine ⟨?_, hclean, ?_⟩
  · exact List.Nodup.sublist (hids.trans (List.filter_sublist.map _)) hdistinct
  · apply List.filter_eq_self.2
    exact fun e he => decide_eq_true (hclean e he)

/-- The fields behind an item change its flag when they have another one. -/
theorem flag_withTail (hkeys : (orphans.map fun x => x.2.key).Nodup) :
    (above.withTail orphans).flag resolve = above.flag resolve ↔
      ∀ x ∈ orphans, x.2.key = .enabled → (x.2.value.val resolve).truthy = above.flag resolve := by
  have hvalue : (above.withTail orphans).value .enabled =
      (fieldValue (orphans.map Prod.snd) .enabled).or (above.value .enabled) := value_withTail above orphans .enabled
  by_cases hflag : ∃ x ∈ orphans, x.2.key = .enabled
  · obtain ⟨x, hx, hkey⟩ := hflag
    have hone : fieldValue (orphans.map Prod.snd) .enabled = some x.2.value := by
      rw [← hkey]
      apply fieldValue_of_mem
      · rw [List.map_map]
        exact hkeys
      · exact List.mem_map_of_mem hx
    have hnew : (above.withTail orphans).flag resolve = (x.2.value.val resolve).truthy := by
      unfold Item.flag
      rw [hvalue, hone]
      rfl
    rw [hnew]
    constructor
    · intro h y hy hkey'
      have hval : fieldValue (orphans.map Prod.snd) .enabled = some y.2.value := by
        rw [← hkey']
        apply fieldValue_of_mem
        · rw [List.map_map]
          exact hkeys
        · exact List.mem_map_of_mem hy
      rw [hone] at hval
      rw [← Option.some.inj hval]
      exact h
    · intro h
      exact h x hx hkey
  · have hnone : fieldValue (orphans.map Prod.snd) .enabled = none := by
      apply fieldValue_eq_none
      intro f hf hkey
      obtain ⟨x, hx, rfl⟩ := List.mem_map.1 hf
      exact hflag ⟨x, hx, hkey⟩
    apply iff_of_true
    · apply flag_congr
      rw [hvalue, hnone]
      rfl
    · intro x hx hkey
      exact absurd ⟨x, hx, hkey⟩ hflag

/-- The block is the item of the agent, and leaves no more than a flag behind. -/
theorem remove_own (hyaml : ReadsBlocks resolve safeLoad) (hvalue : target.value .id = some (.plain a.chars))
    (hid : ∀ x ∈ orphans, x.2.key ≠ .id) (hkeys : (orphans.map fun x => x.2.key).Nodup)
    (hloads : Loads resolve (x ++ above :: target :: next) es) :
    ∃ es', Loads resolve (x ++ above.withTail orphans :: next) es' ∧ (∀ e ∈ es', e.id ≠ a.text) ∧
      (others a es' = others a es ↔
        ∀ x ∈ orphans, x.2.key = .enabled → (x.2.value.val resolve).truthy = above.flag resolve) := by
  obtain ⟨hsome, rfl, hdistinct⟩ := loads_iff.1 hloads
  simp only [List.forall_mem_append, List.forall_mem_cons] at hsome
  obtain ⟨hx, habove, htarget, hnext⟩ := hsome
  obtain ⟨e, he⟩ := Option.isSome_iff_exists.1 habove
  obtain ⟨heid, heflag⟩ := entry_eq_some.1 he
  have hentries : entriesOf resolve (x ++ above :: target :: next) =
      (entriesOf resolve x ++ [e]) ++ ⟨a.text, target.flag resolve⟩ :: entriesOf resolve next := by
    rw [entriesOf_append, entriesOf_cons he, entriesOf_cons (entry_of_value hyaml hvalue htarget), List.append_assoc,
      List.singleton_append]
  rw [hentries] at hdistinct ⊢
  have hothers := others_split rfl hdistinct
  have hnew : (above.withTail orphans).entry resolve = some ⟨e.id, (above.withTail orphans).flag resolve⟩ := by
    apply entry_eq_some.2 ⟨?_, rfl⟩
    rw [← heid]
    apply agentId_congr
    rw [value_withTail, fieldValue_eq_none, Option.none_or]
    intro f hf
    obtain ⟨x, hx, rfl⟩ := List.mem_map.1 hf
    exact hid x hx
  have hids : ((entriesOf resolve x ++ ⟨e.id, (above.withTail orphans).flag resolve⟩ ::
      entriesOf resolve next).map RegistryEntry.id).Sublist ((others a ((entriesOf resolve x ++ [e]) ++
        ⟨a.text, target.flag resolve⟩ :: entriesOf resolve next)).map RegistryEntry.id) := by
    rw [hothers]
    simp
  obtain ⟨hdistinct', hclean, hsame⟩ := clean_of_sublist hids hdistinct
  refine ⟨_, loads_between hx hnext hnew hdistinct', hclean, ?_⟩
  rw [hsame, hothers, ← flag_withTail hkeys, heflag]
  constructor
  · intro heq
    rw [List.append_assoc, List.append_cancel_left_eq] at heq
    exact congrArg RegistryEntry.enabled (List.cons.inj heq).1
  · intro hflag
    rw [hflag, List.append_assoc]
    rfl

/-- The id of the item above, when fields behind it are those of an item that was swallowed. -/
theorem id_withTail {above last : Item} {e e' : RegistryEntry} (he : above.entry resolve = some e)
    (he' : (last.withTail orphans).entry resolve = some e') :
    ∃ id, (above.withTail orphans).agentId? resolve = some id ∧ (id = e.id ∨ id = e'.id) := by
  have hvalue := value_withTail above orphans .id
  cases hfields : fieldValue (orphans.map Prod.snd) .id with
  | none =>
      rw [hfields, Option.none_or] at hvalue
      exact ⟨e.id, (agentId_congr hvalue).trans (entry_eq_some.1 he).1, .inl rfl⟩
  | some s =>
      have hlast := value_withTail last orphans .id
      rw [hfields, Option.some_or] at hvalue hlast
      exact ⟨e'.id, (agentId_congr (hvalue.trans hlast.symm)).trans (entry_eq_some.1 he').1, .inr rfl⟩

theorem length_entriesOf {items : List Item} (h : ∀ item ∈ items, (item.entry resolve).isSome = true) :
    (entriesOf resolve items).length = items.length := by
  induction items with
  | nil => rfl
  | cons item items ih =>
      rw [List.forall_mem_cons] at h
      obtain ⟨e, he⟩ := Option.isSome_iff_exists.1 h.1
      rw [entriesOf_cons he, List.length_cons, List.length_cons, ih h.2]

/-- The block holds other items as well, and an item stands above. -/
theorem remove_swallowed (hyaml : ReadsBlocks resolve safeLoad) (hvalue : target.value .id = some (.plain a.chars))
    (hloads : Loads resolve (x ++ above :: target :: (swallowed ++ last.withTail orphans :: next)) es) :
    ∃ es', Loads resolve (x ++ above.withTail orphans :: next) es' ∧ (∀ e ∈ es', e.id ≠ a.text) ∧
      others a es' ≠ others a es := by
  obtain ⟨hsome, rfl, hdistinct⟩ := loads_iff.1 hloads
  simp only [List.forall_mem_append, List.forall_mem_cons] at hsome
  obtain ⟨hx, habove, htarget, hswallowed, hlast, hnext⟩ := hsome
  obtain ⟨e, he⟩ := Option.isSome_iff_exists.1 habove
  obtain ⟨e', he'⟩ := Option.isSome_iff_exists.1 hlast
  have hentries : entriesOf resolve (x ++ above :: target :: (swallowed ++ last.withTail orphans :: next)) =
      (entriesOf resolve x ++ [e]) ++ ⟨a.text, target.flag resolve⟩ ::
        (entriesOf resolve swallowed ++ e' :: entriesOf resolve next) := by
    rw [entriesOf_append, entriesOf_cons he, entriesOf_cons (entry_of_value hyaml hvalue htarget), entriesOf_append,
      entriesOf_cons he', List.append_assoc, List.singleton_append]
  rw [hentries] at hdistinct ⊢
  have hothers := others_split rfl hdistinct
  obtain ⟨id, hid, hor⟩ := id_withTail he he'
  have hnew : (above.withTail orphans).entry resolve = some ⟨id, (above.withTail orphans).flag resolve⟩ :=
    entry_eq_some.2 ⟨hid, rfl⟩
  have hids : ((entriesOf resolve x ++ ⟨id, (above.withTail orphans).flag resolve⟩ ::
      entriesOf resolve next).map RegistryEntry.id).Sublist ((others a ((entriesOf resolve x ++ [e]) ++
        ⟨a.text, target.flag resolve⟩ :: (entriesOf resolve swallowed ++ e' :: entriesOf resolve next))).map
          RegistryEntry.id) := by
    rw [hothers, List.append_assoc, List.singleton_append, List.map_append, List.map_append, List.map_cons, List.map_cons,
      List.map_append, List.map_cons]
    apply List.Sublist.append_left
    obtain rfl | rfl := hor
    · apply List.Sublist.cons_cons
      exact (List.sublist_cons_self _ _).trans (List.sublist_append_right _ _)
    · apply List.Sublist.cons
      exact List.sublist_append_right _ _
  obtain ⟨hdistinct', hclean, hsame⟩ := clean_of_sublist hids hdistinct
  refine ⟨_, loads_between hx hnext hnew hdistinct', hclean, fun heq => ?_⟩
  rw [hsame, hothers] at heq
  have hlength := congrArg List.length heq
  simp only [List.length_append, List.length_cons, List.length_nil] at hlength
  omega

/-- No item stands above: what is left is what follows the block. -/
theorem remove_first (hyaml : ReadsBlocks resolve safeLoad) (hvalue : target.value .id = some (.plain a.chars))
    (hloads : Loads resolve (target :: (swallowed ++ next)) es) :
    ∃ es', Loads resolve next es' ∧ (∀ e ∈ es', e.id ≠ a.text) ∧ (others a es' = others a es ↔ swallowed = []) := by
  obtain ⟨hsome, rfl, hdistinct⟩ := loads_iff.1 hloads
  simp only [List.forall_mem_append, List.forall_mem_cons] at hsome
  obtain ⟨htarget, hswallowed, hnext⟩ := hsome
  have hentries : entriesOf resolve (target :: (swallowed ++ next)) =
      ⟨a.text, target.flag resolve⟩ :: (entriesOf resolve swallowed ++ entriesOf resolve next) := by
    rw [entriesOf_cons (entry_of_value hyaml hvalue htarget), entriesOf_append]
  rw [hentries] at hdistinct ⊢
  have hothers : others a (⟨a.text, target.flag resolve⟩ :: (entriesOf resolve swallowed ++ entriesOf resolve next)) =
      entriesOf resolve swallowed ++ entriesOf resolve next := others_split (x := []) rfl hdistinct
  have hids : ((entriesOf resolve next).map RegistryEntry.id).Sublist ((others a (⟨a.text, target.flag resolve⟩ ::
      (entriesOf resolve swallowed ++ entriesOf resolve next))).map RegistryEntry.id) := by
    rw [hothers, List.map_append]
    exact List.sublist_append_right _ _
  obtain ⟨hdistinct', hclean, hsame⟩ := clean_of_sublist hids hdistinct
  refine ⟨_, loads_iff.2 ⟨hnext, rfl, hdistinct'⟩, hclean, ?_⟩
  rw [hsame, hothers, List.self_eq_append_left, ← List.length_eq_zero_iff, length_entriesOf hswallowed,
    List.length_eq_zero_iff]

end Entries

/-! ### The items that are left -/

section Layout

variable {resolve : List Char → Val} {safeLoad : List Char → Except String Val} {a : AgentId} {n k : ℕ}
  {before block behind : List Line} {items init : List Item} {above : Item} {es : List RegistryEntry}

/-- The items of the text from the line of the agent on. -/
theorem parseItems_target (h : readDoc (before ++ .dash n (some (k, ⟨.id, .plain a.chars⟩)) :: (block ++ behind)) =
    some items) : (parseItems before).1 = [] ∧ items = (parseItems before).2 ++
      ⟨n, some (k, ⟨.id, .plain a.chars⟩), (parseItems (block ++ behind)).1⟩ :: (parseItems (block ++ behind)).2 := by
  have hparse := (readDoc_iff.1 h).2.1
  rw [parseItems_append_dash] at hparse
  obtain ⟨hlead, hitems⟩ := Prod.mk.inj hparse
  exact ⟨hlead, hitems.symm⟩

/-- Fields of the agent's item that are left behind are no ids. -/
theorem orphan_keys (hblock : (parseItems block).2 = [])
    (hkeys : ((⟨n, some (k, ⟨.id, .plain a.chars⟩), (parseItems (block ++ behind)).1⟩ : Item).fields.map Field.key).Nodup) :
    (∀ x ∈ (parseItems behind).1, x.2.key ≠ .id) ∧ ((parseItems behind).1.map fun x => x.2.key).Nodup := by
  rw [parseItems_append_of_nil hblock] at hkeys
  have hfields : (⟨n, some (k, ⟨.id, .plain a.chars⟩), (parseItems block).1 ++ (parseItems behind).1⟩ : Item).fields.map
      Field.key = .id :: (((parseItems block).1.map fun x => x.2.key) ++ (parseItems behind).1.map fun x => x.2.key) := by
    simp [Item.fields, Function.comp_def]
  rw [hfields, List.nodup_cons, List.nodup_append] at hkeys
  refine ⟨fun x hx hid => hkeys.1 ?_, hkeys.2.2.1⟩
  apply List.mem_append_right
  exact List.mem_map.2 ⟨x, hx, hid⟩

/-- No item stands above the block. -/
theorem readDoc_rest_first (hcrowded : .crowded ∉ before ++ behind) (hlead : (parseItems before).1 = [])
    (hprev : (parseItems before).2 = []) (hlevel : (parseItems behind).2 ≠ [] → Level (parseItems behind).2) :
    readDoc (before ++ behind) = some items ↔
      (parseItems behind).1 = [] ∧ (parseItems behind).2 ≠ [] ∧ items = (parseItems behind).2 := by
  rw [readDoc_iff, parseItems_append_of_nil hprev, hlead, List.nil_append, Prod.mk.injEq]
  constructor
  · rintro ⟨-, ⟨horphans, rfl⟩, hne, -⟩
    exact ⟨horphans, hne, rfl⟩
  · rintro ⟨horphans, hne, rfl⟩
    exact ⟨hcrowded, ⟨horphans, rfl⟩, hne, hlevel hne⟩

/-- The item above the block gets the fields that are left behind. -/
theorem readDoc_rest_above (hcrowded : .crowded ∉ before ++ behind) (hlead : (parseItems before).1 = [])
    (hprev : (parseItems before).2 = init ++ [above])
    (hlevel : ∀ item ∈ init ++ above :: (parseItems behind).2, item.indent = n ∧ item.Aligned) :
    readDoc (before ++ behind) = some items ↔ (∀ x ∈ (parseItems behind).1, above.column = some x.1) ∧
      items = init ++ above.withTail (parseItems behind).1 :: (parseItems behind).2 := by
  have habove := hlevel above (by simp)
  rw [readDoc_iff, parseItems_append_of_concat hprev, hlead, Prod.mk.injEq]
  constructor
  · rintro ⟨-, ⟨-, rfl⟩, hne, hlevel'⟩
    obtain ⟨m, hm⟩ := (level_iff hne).1 hlevel'
    exact ⟨(aligned_withTail habove.2).1 (hm _ (by simp)).2, rfl⟩
  · rintro ⟨hcolumns, rfl⟩
    refine ⟨hcrowded, ⟨rfl, rfl⟩, by simp, (level_iff (by simp)).2 ⟨n, fun item hitem => ?_⟩⟩
    obtain hitem | hitem := List.mem_append.1 hitem
    · exact hlevel item (by simp [hitem])
    · obtain rfl | hitem := List.mem_cons.1 hitem
      · exact ⟨habove.1, (aligned_withTail habove.2).2 hcolumns⟩
      · exact hlevel item (by simp [hitem])

/-- What is left of the text is no registry, or its entries are those of the others just when the block leaves their
items. -/
theorem removed_entries (hyaml : ReadsBlocks resolve safeLoad)
    (hread : readDoc (before ++ .dash n (some (k, ⟨.id, .plain a.chars⟩)) :: (block ++ behind)) = some items)
    (hkeys : ∀ item ∈ items, (item.fields.map Field.key).Nodup) (hloads : Loads resolve items es) :
    (readDoc (before ++ behind) = none ∧
        Rejected (parseItems before).2 (parseItems behind).1 (parseItems behind).2) ∨
      (¬ Rejected (parseItems before).2 (parseItems behind).1 (parseItems behind).2 ∧
        ∃ items' es', readDoc (before ++ behind) = some items' ∧ Loads resolve items' es' ∧ (∀ e ∈ es', e.id ≠ a.text) ∧
          (others a es' = others a es ↔ LeavesItems resolve before block behind)) := by
  obtain ⟨hcrowded, -, hne, hlevel⟩ := readDoc_iff.1 hread
  obtain ⟨n, hn⟩ := (level_iff hne).1 hlevel
  obtain ⟨hlead, rfl⟩ := parseItems_target hread
  have hrest : .crowded ∉ before ++ behind := by
    simp only [List.mem_append, List.mem_cons, not_or] at hcrowded ⊢
    exact ⟨hcrowded.1, hcrowded.2.2.2⟩
  have htarget := hkeys _ (List.mem_append_right _ List.mem_cons_self)
  have hvalue := fieldValue_of_mem (f := ⟨.id, .plain a.chars⟩) htarget List.mem_cons_self
  have hnext : ∀ item ∈ (parseItems behind).2, item ∈ (parseItems (block ++ behind)).2 := by
    intro item hitem
    obtain hnil | ⟨swallowed, last, hconcat⟩ := List.eq_nil_or_concat (parseItems block).2
    · rw [parseItems_append_of_nil hnil]
      exact hitem
    · rw [List.concat_eq_append] at hconcat
      rw [parseItems_append_of_concat hconcat]
      simp [hitem]
  have hlevelNext : ∀ item ∈ (parseItems behind).2, item.indent = n ∧ item.Aligned :=
    fun item hitem => hn item (by simp [hnext item hitem])
  obtain hprev | ⟨init, above, hprev⟩ := List.eq_nil_or_concat (parseItems before).2
  · have hlevel' : (parseItems behind).2 ≠ [] → Level (parseItems behind).2 :=
      fun hne => (level_iff hne).2 ⟨n, hlevelNext⟩
    by_cases hleft : (parseItems behind).1 = [] ∧ (parseItems behind).2 ≠ []
    · right
      have hsplit : (parseItems (block ++ behind)).2 = (parseItems block).2 ++ (parseItems behind).2 := by
        obtain hnil | ⟨swallowed, last, hconcat⟩ := List.eq_nil_or_concat (parseItems block).2
        · rw [parseItems_append_of_nil hnil, hnil, List.nil_append]
        · rw [List.concat_eq_append] at hconcat
          rw [parseItems_append_of_concat hconcat, hconcat, hleft.1, Item.withTail, List.append_nil, List.append_assoc]
          rfl
      rw [hprev, List.nil_append, hsplit] at hloads
      obtain ⟨es', hloads', hclean, hothers⟩ := remove_first hyaml hvalue hloads
      refine ⟨?_, _, es', (readDoc_rest_first hrest hlead hprev hlevel').2 ⟨hleft.1, hleft.2, rfl⟩, hloads', hclean, ?_⟩
      · rw [hprev]
        rintro (⟨-, horphans | hnone⟩ | ⟨last, hlast, -⟩)
        · exact horphans hleft.1
        · exact hleft.2 hnone
        · cases hlast
      · rw [hothers, LeavesItems, hprev]
        simp
    · left
      refine ⟨?_, .inl ⟨hprev, ?_⟩⟩
      · apply Option.eq_none_iff_forall_ne_some.2
        intro items' hread'
        obtain ⟨horphans, hne', -⟩ := (readDoc_rest_first hrest hlead hprev hlevel').1 hread'
        exact hleft ⟨horphans, hne'⟩
      · by_cases horphans : (parseItems behind).1 = []
        · exact .inr (not_not.1 fun hne' => hleft ⟨horphans, hne'⟩)
        · exact .inl horphans
  · rw [List.concat_eq_append] at hprev
    have hlevel' : ∀ item ∈ init ++ above :: (parseItems behind).2, item.indent = n ∧ item.Aligned := by
      intro item hitem
      obtain hitem | hitem := List.mem_append.1 hitem
      · exact hn item (by simp [hprev, hitem])
      · obtain rfl | hitem := List.mem_cons.1 hitem
        · exact hn item (by simp [hprev])
        · exact hlevelNext item hitem
    by_cases hcolumns : ∀ x ∈ (parseItems behind).1, above.column = some x.1
    · right
      rw [hprev, List.append_assoc, List.singleton_append] at hloads
      have hread' := (readDoc_rest_above hrest hlead hprev hlevel').2 ⟨hcolumns, rfl⟩
      have hkept : ¬ Rejected (parseItems before).2 (parseItems behind).1 (parseItems behind).2 := by
        rw [hprev]
        rintro (⟨hnil, -⟩ | ⟨last, hlast, x, hx, hne'⟩)
        · exact absurd hnil (by simp)
        · rw [List.getLast?_concat] at hlast
          obtain rfl := Option.some.inj hlast
          exact hne' (hcolumns x hx)
      obtain hnil | ⟨swallowed, last, hconcat⟩ := List.eq_nil_or_concat (parseItems block).2
      · obtain ⟨hid, hnodup⟩ := orphan_keys hnil htarget
        rw [parseItems_append_of_nil hnil] at hloads hvalue
        obtain ⟨es', hloads', hclean, hothers⟩ := remove_own hyaml hvalue hid hnodup hloads
        refine ⟨hkept, _, es', hread', hloads', hclean, ?_⟩
        rw [hothers, LeavesItems, hprev, List.getLast?_concat]
        simp [hnil]
      · rw [List.concat_eq_append] at hconcat
        rw [parseItems_append_of_concat hconcat] at hloads hvalue
        obtain ⟨es', hloads', hclean, hothers⟩ := remove_swallowed hyaml hvalue hloads
        refine ⟨hkept, _, es', hread', hloads', hclean, iff_of_false hothers ?_⟩
        rintro ⟨hnil, -⟩
        rw [hconcat] at hnil
        exact absurd hnil (by simp)
    · left
      refine ⟨?_, .inr ⟨above, ?_, ?_⟩⟩
      · apply Option.eq_none_iff_forall_ne_some.2
        intro items' hread'
        exact hcolumns ((readDoc_rest_above hrest hlead hprev hlevel').1 hread').1
      · rw [hprev, List.getLast?_concat]
        rfl
      · simpa using hcolumns

end Layout

/-! ### The edit -/

section Edit

variable {resolve : List Char → Val} {safeLoad : List Char → Except String Val} {a : AgentId} {file : List Char}
  {ls : List Line} {items : List Item} {es : List RegistryEntry}

/-- When `remove_registry_entry` keeps the other entries. -/
theorem remove_keepsFrame_iff (hyaml : ReadsBlocks resolve safeLoad) (h : BlockRegistry file ls items)
    (hload : loadRegistry safeLoad file = .ok es) :
    KeepsFrame safeLoad a file es .remove ↔ EditSafe resolve ls a .remove := by
  obtain ⟨rs, hchars, rfl, hwhole, -⟩ := h.exists_lines
  cases hbounds : entryBounds (rs.map ReadLine.chars) a with
  | none =>
      have hrun : RegistryEdit.remove.run safeLoad a file = (.error .unknownAgent, file) := by
        change removeRegistryEntry safeLoad a file = _
        unfold removeRegistryEntry
        rw [hchars]
        dsimp only
        rw [hbounds]
      constructor
      · intro _ before t after htarget
        exact absurd htarget (not_isTarget hbounds)
      · intro _
        unfold KeepsFrame
        rw [hrun]
  | some bounds =>
      obtain ⟨start, stop⟩ := bounds
      obtain ⟨before, t, after, htarget, hstart, hstop⟩ := bounds_split hbounds
      obtain ⟨n, k, ht⟩ := htarget.dash
      have hrun : RegistryEdit.remove.run safeLoad a file = replaceValidated safeLoad file
          ((before ++ behindBlock after).map ReadLine.chars).flatten
          fun entries => entries.all fun e => decide (e.id ≠ a.text) := by
        change removeRegistryEntry safeLoad a file = _
        unfold removeRegistryEntry
        rw [hchars]
        dsimp only
        rw [hbounds, ← removed_lines htarget hstart hstop]
      have hsafe : EditSafe resolve (rs.map ReadLine.line) a .remove ↔
          RemoveSafe resolve (before.map ReadLine.line) (after.map ReadLine.line) := by
        constructor
        · intro hall
          exact hall _ _ _ htarget.isTarget
        · intro hone before' t' after' htarget'
          obtain ⟨rfl, rfl⟩ := htarget.isTarget.unique htarget'
          exact hone
      have hlines : rs.map ReadLine.line = before.map ReadLine.line ++ .dash n (some (k, ⟨.id, .plain a.chars⟩)) ::
          ((blockOf after).map ReadLine.line ++ (behindBlock after).map ReadLine.line) := by
        rw [← List.map_append, blockOf_append, htarget.split, List.map_append, List.map_cons, ht]
      have hlines' : (before ++ behindBlock after).map ReadLine.line =
          before.map ReadLine.line ++ (behindBlock after).map ReadLine.line := List.map_append
      have hwhole' : Whole ((before ++ behindBlock after).map ReadLine.chars) := by
        apply hwhole.sublist
        apply List.Sublist.map
        rw [htarget.split]
        exact ((List.dropWhile_sublist _).trans (List.sublist_cons_self t after)).append_left before
      have hread := h.read
      have hheader := h.header
      rw [hlines] at hread hheader
      have hheader' : HasHeader ((before ++ behindBlock after).map ReadLine.line) := by
        rw [hlines']
        apply hheader.replace (by simp) (by simp)
        have hno := hheader.not_mem (by simp) (by simp)
        exact fun hin => hno (List.mem_append_right _ hin)
      have hbare : BareLevel ((before ++ behindBlock after).map ReadLine.line) := by
        apply bareLevel_of_dashes hread
        intro m first hin
        rw [hlines', List.mem_append] at hin
        simp only [List.mem_append, List.mem_cons]
        exact hin.imp id fun hin => .inr (.inr hin)
      rw [hsafe, keepsFrame_replace hrun]
      unfold RemoveSafe
      rw [blockLines_map, linesBehind_map]
      obtain ⟨hnone, hrejected⟩ | ⟨hkept, items', es', hread', hloads', hclean, hothers⟩ :=
        removed_entries hyaml hread h.keys (h.loads hyaml hload)
      · apply iff_of_true
        · intro es' hload' _
          obtain ⟨items', hread', -⟩ := (load_lines hyaml hwhole' hheader' hbare).1 hload'
          rw [hlines', hnone] at hread'
          cases hread'
        · exact .inl hrejected
      · rw [← hlines'] at hread'
        have hload' := (load_lines hyaml hwhole' hheader' hbare).2 ⟨items', hread', hloads'⟩
        constructor
        · intro hkeep
          have hcheck : (es'.all fun e => decide (e.id ≠ a.text)) = true :=
            List.all_eq_true.2 fun e he => decide_eq_true (hclean e he)
          exact .inr (hothers.1 (hkeep es' hload' hcheck).1)
        · rintro (hrejected | hleaves) es'' hload'' -
          · exact absurd hrejected hkept
          · rw [hload'] at hload''
            obtain rfl := Except.ok.inj hload''
            exact ⟨hothers.2 hleaves, hclean⟩

end Edit

end ProjectManager
