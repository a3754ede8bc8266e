import ProjectManager.Runtime.RegistryRemove

/-!
# When an edit keeps the other entries

The three edits together (`registry_edit_keeps_frame_iff`).  The sample has an item that begins with its flag: the block of
the item above takes it along.
-/

namespace ProjectManager

open Lines Text

section Edits

variable {resolve : List Char → Val} {safeLoad : List Char → Except String Val} {file : List Char} {ls : List Line}
  {items : List Item} {es : List RegistryEntry}

/-- An edit of a registry in block style keeps the other entries, makes its change or leaves the file as it is, just when
the block of the agent is its own item as far as the edit goes. -/
theorem registry_edit_keeps_frame_iff (hyaml : ReadsBlocks resolve safeLoad) (h : BlockRegistry file ls items)
    (hload : loadRegistry safeLoad file = .ok es) (a : AgentId) (edit : RegistryEdit) :
    KeepsFrame safeLoad a file es edit ↔ EditSafe resolve ls a edit := by
  cases edit with
  | append => exact iff_of_true (append_keepsFrame hyaml h hload) trivial
  | setEnabled enabled => exact set_keepsFrame_iff hyaml h hload
  | remove => exact remove_keepsFrame_iff hyaml h hload

end Edits

/-! ### A sample -/

section Sample

/-- The type of a plain word: a flag or a text. -/
def sampleResolve (word : List Char) : Val :=
  if word = "true".toList then
    .bool true
  else if word = "false".toList then
    .bool false
  else
    .str (String.ofList word)

/-- Reading texts in block style. -/
def sampleLoad (text : List Char) : Except String Val :=
  match (keepLines text).mapM scanLine with
  | some ls =>
      match readDoc ls with
      | some items => .ok (docVal sampleResolve items)
      | none => .error "wrong indentation"
  | none => .error "not in block style"

theorem mapM_scanLine {lines : List (List Char)} {ls : List Line} (h : lines.map scanLine = ls.map some) :
    lines.mapM scanLine = some ls := by
  induction lines generalizing ls with
  | nil =>
      cases ls with
      | nil => rfl
      | cons L ls => cases h
  | cons l lines ih =>
      cases ls with
      | nil => cases h
      | cons L ls =>
          obtain ⟨hl, hrest⟩ := List.cons.inj h
          rw [List.mapM_cons, hl, ih hrest]
          rfl

theorem sample_reads : ReadsBlocks sampleResolve sampleLoad where
  reads text ls items hlines _ hread := by
    unfold sampleLoad
    rw [mapM_scanLine hlines]
    dsimp only
    rw [hread]
  rejects text ls hlines _ _ hread doc hdoc := by
    unfold sampleLoad at hdoc
    rw [mapM_scanLine hlines] at hdoc
    dsimp only at hdoc
    rw [hread] at hdoc
    cases hdoc
  plain_str word s h := by
    unfold sampleResolve at h
    split at h
    · cases h
    · split at h
      · cases h
      · exact (Val.str.inj h).symm
  plain_true := rfl
  plain_false := rfl

/-- The second item begins with its flag, and the third has a comment on it. -/
def sampleRegistry : List Char :=
  "agents:\n  - id: a\n    enabled: true\n  - enabled: false\n    id: b\n\n  - id: c\n    enabled: false # paused\n".toList

/-- The lines of the sample up to the third item. -/
def sampleBefore : List Line :=
  [.agents, .dash 2 (some (1, ⟨.id, .plain ['a']⟩)), .field 4 (flagField true),
    .dash 2 (some (1, flagField false)), .field 4 ⟨.id, .plain ['b']⟩, .filler false]

def sampleLines : List Line :=
  sampleBefore ++ [.dash 2 (some (1, ⟨.id, .plain ['c']⟩)), .field 4 (flagField false)]

def sampleItems : List Item :=
  [⟨2, some (1, ⟨.id, .plain ['a']⟩), [(4, flagField true)]⟩, ⟨2, some (1, flagField false), [(4, ⟨.id, .plain ['b']⟩)]⟩,
    ⟨2, some (1, ⟨.id, .plain ['c']⟩), [(4, flagField false)]⟩]

def sampleEntries : List RegistryEntry :=
  [⟨"a", true⟩, ⟨"b", false⟩, ⟨"c", false⟩]

set_option maxRecDepth 4000 in
theorem sample_block : BlockRegistry sampleRegistry sampleLines sampleItems where
  lines := by
    unfold BlockLines
    decide
  header := ⟨[], sampleLines.tail, rfl, List.forall_mem_nil _, by decide⟩
  read := by decide
  keys := by decide

set_option maxRecDepth 4000 in
theorem sample_load : loadRegistry sampleLoad sampleRegistry = .ok sampleEntries :=
  rfl

def agentA : AgentId :=
  ⟨['a'], by decide⟩

def agentC : AgentId :=
  ⟨['c'], by decide⟩

/-- The last agent of the sample is resumed, and the others stay. -/
theorem registry_edit_keeps_frame_sample :
    KeepsFrame sampleLoad agentC sampleRegistry sampleEntries (.setEnabled true) := by
  apply (registry_edit_keeps_frame_iff sample_reads sample_block sample_load agentC (.setEnabled true)).2
  intro before t after htarget
  have hsample : IsTarget agentC sampleLines sampleBefore (.dash 2 (some (1, ⟨.id, .plain ['c']⟩)))
      [.field 4 (flagField false)] := ⟨rfl, by decide, by decide⟩
  obtain ⟨-, rfl⟩ := htarget.unique hsample
  have hblock : blockLines [.field 4 (flagField false)] = [] ++ .field 4 (flagField false) :: [] := rfl
  apply (setSafe_of_first hblock rfl (List.forall_mem_nil _)).2
  intro _ hitems
  exact absurd rfl hitems

/-- The sample without the lines up to the third item. -/
def sampleRest : List Char :=
  "agents:\n  - id: c\n    enabled: false # paused\n".toList

set_option maxRecDepth 4000 in
theorem sample_removed : RegistryEdit.remove.run sampleLoad agentA sampleRegistry = (.ok (), sampleRest) ∧
    loadRegistry sampleLoad sampleRest = .ok [⟨"c", false⟩] :=
  ⟨rfl, rfl⟩

/-- Removing the first agent of the sample removes the second one with it. -/
theorem registry_edit_breaks_frame : ReadsBlocks sampleResolve sampleLoad ∧
    BlockRegistry sampleRegistry sampleLines sampleItems ∧ loadRegistry sampleLoad sampleRegistry = .ok sampleEntries ∧
    ¬ KeepsFrame sampleLoad agentA sampleRegistry sampleEntries .remove := by
  refine ⟨sample_reads, sample_block, sample_load, fun h => ?_⟩
  unfold KeepsFrame at h
  rw [sample_removed.1] at h
  obtain ⟨es', hload, hothers, -⟩ := h
  rw [sample_removed.2] at hload
  obtain rfl := Except.ok.inj hload
  have hlength := congrArg List.length hothers
  exact absurd hlength (by decide)

end Sample

end ProjectManager
