import ProjectManager.Runtime.RegistryFrame

/-!
# The item of the agent, and a new one

Where the item of the agent stands among the items of a text (`IsTarget.item`), and what that says about the entries
(`loads_around`, `others_of_loads`).  `append_registry` keeps the other entries always (`append_keepsFrame`).
-/

namespace ProjectManager

open Lines Text

section Edits

variable {resolve : List Char → Val} {safeLoad : List Char → Except String Val} {a : AgentId} {file : List Char}
  {ls before after : List Line} {t : Line} {items : List Item} {es : List RegistryEntry} {rs : List ReadLine}

/-! ### The item of the agent -/

/-- The item of the agent in a well laid out text. -/
structure TargetItem (a : AgentId) (before after : List Line) (items : List Item) (item : Item) : Prop where
  lead : (parseItems before).1 = []
  split : items = (parseItems before).2 ++ item :: (parseItems after).2
  tail : item.tail = (parseItems after).1
  first : ∃ k, item.first = some (k, ⟨.id, .plain a.chars⟩)

theorem IsTarget.dash (h : IsTarget a ls before t after) : ∃ n k, t = .dash n (some (k, ⟨.id, .plain a.chars⟩)) := by
  have hline := h.line
  unfold Line.isItemOf at hline
  split at hline
  · rename_i n k f
    rw [of_decide_eq_true hline]
    exact ⟨n, k, rfl⟩
  · cases hline

theorem IsTarget.item (h : IsTarget a ls before t after) (hread : readDoc ls = some items) :
    ∃ item, TargetItem a before after items item ∧ ∃ k, t = .dash item.indent (some (k, ⟨.id, .plain a.chars⟩)) := by
  obtain ⟨n, k, rfl⟩ := h.dash
  have hparse := (readDoc_iff.1 hread).2.1
  rw [h.split, parseItems_append_dash] at hparse
  obtain ⟨hlead, hitems⟩ := Prod.mk.inj hparse
  exact ⟨⟨n, some (k, ⟨.id, .plain a.chars⟩), (parseItems after).1⟩, ⟨hlead, hitems.symm, rfl, ⟨k, rfl⟩⟩, k, rfl⟩

/-- The first line of the agent is found once. -/
theorem IsTarget.unique {before' after' : List Line} {t' : Line} (h : IsTarget a ls before t after)
    (h' : IsTarget a ls before' t' after') : before = before' ∧ after = after' := by
  obtain ⟨hbefore, -, hafter⟩ := first_unique (h.split.symm.trans h'.split) h.line h'.line h.first h'.first
  exact ⟨hbefore, hafter⟩

/-- The value of the id of the agent's item. -/
theorem TargetItem.value {item : Item} (h : TargetItem a before after items item)
    (hkeys : ∀ item ∈ items, (item.fields.map Field.key).Nodup) : item.value .id = some (.plain a.chars) := by
  obtain ⟨k, hfirst⟩ := h.first
  have hmem : (⟨.id, .plain a.chars⟩ : Field) ∈ item.fields := by
    unfold Item.fields
    rw [hfirst]
    simp
  exact fieldValue_of_mem (hkeys item (by rw [h.split]; simp)) hmem

/-- The entry of the agent's item. -/
theorem entry_of_value (hyaml : ReadsBlocks resolve safeLoad) {item : Item}
    (hvalue : item.value .id = some (.plain a.chars)) (hsome : (item.entry resolve).isSome = true) :
    item.entry resolve = some ⟨a.text, item.flag resolve⟩ := by
  obtain ⟨e, he⟩ := Option.isSome_iff_exists.1 hsome
  obtain ⟨hid, -⟩ := entry_eq_some.1 he
  exact entry_eq_some.2 ⟨agentId_of_value hyaml hvalue hid ▸ hid, rfl⟩

/-- An item with an entry between items with entries. -/
theorem loads_between {x y : List Item} {item : Item} {e : RegistryEntry}
    (hx : ∀ item ∈ x, (item.entry resolve).isSome = true) (hy : ∀ item ∈ y, (item.entry resolve).isSome = true)
    (he : item.entry resolve = some e)
    (hdistinct : ((entriesOf resolve x ++ e :: entriesOf resolve y).map RegistryEntry.id).Nodup) :
    Loads resolve (x ++ item :: y) (entriesOf resolve x ++ e :: entriesOf resolve y) := by
  apply loads_iff.2
  refine ⟨?_, ?_, hdistinct⟩
  · apply List.forall_mem_append.2 ⟨hx, List.forall_mem_cons.2 ⟨?_, hy⟩⟩
    rw [he]
    rfl
  · rw [entriesOf_append, entriesOf_cons he]

/-- The entries around that of the agent. -/
theorem loads_around (hyaml : ReadsBlocks resolve safeLoad) {x y : List Item} {item : Item}
    (hvalue : item.value .id = some (.plain a.chars)) (hloads : Loads resolve (x ++ item :: y) es) :
    es = entriesOf resolve x ++ ⟨a.text, item.flag resolve⟩ :: entriesOf resolve y := by
  obtain ⟨hsome, rfl, -⟩ := loads_iff.1 hloads
  rw [entriesOf_append, entriesOf_cons (entry_of_value hyaml hvalue (hsome item (by simp)))]

/-- The entries of the others are those around the item of the agent. -/
theorem others_of_loads (hyaml : ReadsBlocks resolve safeLoad) {x y : List Item} {item : Item}
    (hvalue : item.value .id = some (.plain a.chars)) (hloads : Loads resolve (x ++ item :: y) es) :
    others a es = entriesOf resolve x ++ entriesOf resolve y := by
  have hdistinct := hloads.distinct
  rw [loads_around hyaml hvalue hloads] at hdistinct ⊢
  exact others_split rfl hdistinct

/-- When the text of new lines loads. -/
theorem load_lines (hyaml : ReadsBlocks resolve safeLoad) (hwhole : Whole (rs.map ReadLine.chars))
    (hheader : HasHeader (rs.map ReadLine.line)) (hbare : BareLevel (rs.map ReadLine.line)) :
    loadRegistry safeLoad (rs.map ReadLine.chars).flatten = .ok es ↔
      ∃ items, readDoc (rs.map ReadLine.line) = some items ∧ Loads resolve items es :=
  load_iff hyaml (blockLines_of_whole hwhole) hheader hbare

/-- The lines of a registry. -/
theorem BlockRegistry.exists_lines (h : BlockRegistry file ls items) :
    ∃ rs : List ReadLine, keepLines file = rs.map ReadLine.chars ∧ ls = rs.map ReadLine.line ∧
      Whole (rs.map ReadLine.chars) ∧ file = (rs.map ReadLine.chars).flatten := by
  obtain ⟨rs, hchars, hlines⟩ := ReadLine.exists_of_block h.lines (readDoc_iff.1 h.read).1
  exact ⟨rs, hchars, hlines, whole_of_keepLines hchars, by rw [← hchars, flatten_keepLines]⟩

/-! ### The lines of the agent -/

theorem Target.isTarget {before after : List ReadLine} {t : ReadLine} (h : Target a rs before t after) :
    IsTarget a (rs.map ReadLine.line) (before.map ReadLine.line) t.line (after.map ReadLine.line) := by
  constructor
  · rw [h.split, List.map_append, List.map_cons]
  · exact h.line
  · intro L hL
    obtain ⟨r, hr, rfl⟩ := List.mem_map.1 hL
    exact h.first r hr

/-- The agent that is not found has no line. -/
theorem not_isTarget (h : entryBounds (rs.map ReadLine.chars) a = none) :
    ¬ IsTarget a (rs.map ReadLine.line) before t after := by
  intro htarget
  unfold entryBounds at h
  rw [Option.map_eq_none_iff, List.findIdx?_eq_none_iff] at h
  have hmem : t ∈ rs.map ReadLine.line := by
    rw [htarget.split]
    simp
  obtain ⟨r, hr, rfl⟩ := List.mem_map.1 hmem
  have hno := h r.chars (List.mem_map_of_mem hr)
  rw [(r.found a).itemOf, htarget.line] at hno
  cases hno

theorem blockLines_map (after : List ReadLine) :
    blockLines (after.map ReadLine.line) = (blockOf after).map ReadLine.line :=
  List.takeWhile_map

theorem linesBehind_map (after : List ReadLine) :
    linesBehind (after.map ReadLine.line) = (behindBlock after).map ReadLine.line :=
  List.dropWhile_map

/-- An edit that writes a text which loads. -/
theorem keepsFrame_of_load {edit : RegistryEdit} {new : List Char} {check : List RegistryEntry → Bool}
    {es' : List RegistryEntry} (hrun : edit.run safeLoad a file = replaceValidated safeLoad file new check)
    (hload : loadRegistry safeLoad new = .ok es') :
    KeepsFrame safeLoad a file es edit ↔ (check es' = true → others a es' = others a es ∧ edit.Done a es') := by
  rw [keepsFrame_replace hrun]
  constructor
  · intro h
    exact h es' hload
  · intro h es'' hload''
    rw [hload] at hload''
    obtain rfl := Except.ok.inj hload''
    exact h

/-! ### Appending -/

/-- The item that `append_registry` writes. -/
def newItem (a : AgentId) : Item :=
  ⟨2, some (1, ⟨.id, .plain a.chars⟩), [(4, flagField true)]⟩

theorem appended_text (hwhole : Whole (rs.map ReadLine.chars)) (hne : rs ≠ []) :
    (rs.map ReadLine.chars).flatten ++ (if (rs.map ReadLine.chars).flatten.getLast? = some '\n' ||
      (rs.map ReadLine.chars).flatten.isEmpty then [] else ['\n']) ++ (appendedLines a).flatten =
        ((rs.map ReadLine.fed ++ [itemLine a, flagLine 3 true]).map ReadLine.chars).flatten := by
  rw [flatten_fed hwhole hne, List.map_append, List.flatten_append]
  rfl

/-- What the file loads as. -/
theorem BlockRegistry.loads (hyaml : ReadsBlocks resolve safeLoad) (h : BlockRegistry file ls items)
    (hload : loadRegistry safeLoad file = .ok es) : Loads resolve items es := by
  have hbare : BareLevel ls := bareLevel_of_dashes h.read fun _ _ hd => hd
  obtain ⟨items', hread, hloads⟩ := (load_iff hyaml h.lines h.header hbare).1 hload
  rw [h.read] at hread
  obtain rfl := Option.some.inj hread
  exact hloads

/-- Appending an entry keeps the others. -/
theorem append_keepsFrame (hyaml : ReadsBlocks resolve safeLoad) (h : BlockRegistry file ls items)
    (hload : loadRegistry safeLoad file = .ok es) : KeepsFrame safeLoad a file es .append := by
  have hloads : Loads resolve items es := h.loads hyaml hload
  obtain ⟨rs, -, rfl, hwhole, hfile⟩ := h.exists_lines
  have hne : rs ≠ [] := by
    rintro rfl
    obtain ⟨lead, body, heq, -⟩ := h.header
    exact absurd heq (by simp)
  let written := rs.map ReadLine.fed ++ [itemLine a, flagLine 3 true]
  have hrun : RegistryEdit.append.run safeLoad a file = replaceValidated safeLoad file
      (written.map ReadLine.chars).flatten fun entries => entries.any fun e => decide (e.id = a.text) && e.enabled := by
    rw [← appended_text hwhole hne, ← hfile]
    rfl
  have hlines : written.map ReadLine.line =
      rs.map ReadLine.line ++ [.dash 2 (some (1, ⟨.id, .plain a.chars⟩)), .field 4 (flagField true)] := by
    rw [List.map_append, List.map_map]
    congr 1
    exact List.map_congr_left fun r _ => r.fed_line
  have hfed : Whole (written.map ReadLine.chars) := by
    apply Whole.of_fed
    intro l hl
    obtain ⟨r, hr, rfl⟩ := List.mem_map.1 hl
    obtain hr | hr := List.mem_append.1 hr
    · obtain ⟨r, -, rfl⟩ := List.mem_map.1 hr
      exact r.fed_fed
    · obtain rfl | hr := List.mem_cons.1 hr
      · exact itemLine_fed a
      · rw [List.mem_singleton.1 hr]
        exact flagLine_fed 3 true
  have hheader : HasHeader (written.map ReadLine.line) := by
    rw [hlines]
    exact h.header.append (by simp)
  have hread := readDoc_iff.1 h.read
  have hparse : parseItems (written.map ReadLine.line) = ([], items ++ [newItem a]) := by
    rw [hlines, parseItems_append_dash, hread.2.1]
    rfl
  have hbare : BareLevel (written.map ReadLine.line) := by
    intro n hn item hitem
    rw [hparse, List.head?_append_of_ne_nil _ hread.2.2.1] at hitem
    rw [hlines, List.mem_append] at hn
    have hn' : .dash n none ∈ rs.map ReadLine.line := hn.resolve_right (by simp)
    apply bareLevel_of_dashes h.read (fun _ _ hd => hd) n hn'
    rw [hread.2.1]
    exact hitem
  rw [keepsFrame_replace hrun]
  intro es' hload' hcheck
  constructor
  · obtain ⟨items', hread', hloads'⟩ := (load_lines hyaml hfed hheader hbare).1 hload'
    obtain rfl : items' = items ++ [newItem a] := by
      have := (readDoc_iff.1 hread').2.1
      rw [hparse] at this
      exact (Prod.mk.inj this).2.symm
    have hes : es = entriesOf resolve items := (loads_iff.1 hloads).2.1
    have hes' : es' = es ++ [⟨a.text, (newItem a).flag resolve⟩] := by
      rw [loads_around hyaml rfl hloads', hes]
      rfl
    rw [hes']
    simp [others]
  · obtain ⟨e, he, hpass⟩ := List.any_eq_true.1 hcheck
    obtain ⟨hid, henabled⟩ := (Bool.and_eq_true _ _).mp hpass
    obtain ⟨id, enabled⟩ := e
    obtain rfl : id = a.text := of_decide_eq_true hid
    obtain rfl : enabled = true := henabled
    exact he

end Edits

end ProjectManager
