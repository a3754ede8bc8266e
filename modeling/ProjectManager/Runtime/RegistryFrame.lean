import ProjectManager.Runtime.RegistryWrites

/-!
# Edits of the registry and the other entries
-/

namespace ProjectManager

open Lines Text

/-! ### Statement -/

/-- A registry in block style: its lines, and the items of its list, in which no key comes twice. -/
structure BlockRegistry (text : List Char) (ls : List Line) (items : List Item) : Prop where
  lines : BlockLines text ls
  header : HasHeader ls
  read : readDoc ls = some items
  keys : ∀ item ∈ items, (item.fields.map Field.key).Nodup

/-- The entries of the other agents. -/
def others (a : AgentId) (es : List RegistryEntry) : List RegistryEntry :=
  es.filter fun e => decide (e.id ≠ a.text)

/-- The change that an edit asks for. -/
def RegistryEdit.Done (a : AgentId) (es : List RegistryEntry) : RegistryEdit → Prop
  | append => ⟨a.text, true⟩ ∈ es
  | setEnabled enabled => ⟨a.text, enabled⟩ ∈ es
  | remove => ∀ e ∈ es, e.id ≠ a.text

/-- An edit that raises leaves the file as it is; one that returns makes its change and keeps the other entries. -/
def KeepsFrame (safeLoad : List Char → Except String Val) (a : AgentId) (file : List Char) (es : List RegistryEntry)
    (edit : RegistryEdit) : Prop :=
  match edit.run safeLoad a file with
  | (.error _, newFile) => newFile = file
  | (.ok (), newFile) =>
      ∃ es', loadRegistry safeLoad newFile = .ok es' ∧ others a es' = others a es ∧ edit.Done a es'

/-- The first line of the agent, with what is before it and behind it. -/
structure IsTarget (a : AgentId) (ls before : List Line) (t : Line) (after : List Line) : Prop where
  split : ls = before ++ t :: after
  line : t.isItemOf a = true
  first : ∀ L ∈ before, L.isItemOf a = false

/-- The block behind the line of the agent. -/
def blockLines (after : List Line) : List Line :=
  after.takeWhile fun L => !L.stops

/-- What stands behind the block. -/
def linesBehind (after : List Line) : List Line :=
  after.dropWhile fun L => !L.stops

section Conditions

variable (resolve : List Char → Val)

/-- Setting the flag: the first flag in the block is the agent's own, unless it is set already or a flag that is
cleared is asked for. -/
def SetSafe (enabled : Bool) (after : List Line) : Prop :=
  enabled = true → ∀ front column f behind, blockLines after = front ++ .field column f :: behind →
    f.key = .enabled → (∀ L ∈ front, L.flagColumn = none) → (parseItems front).2 ≠ [] →
      (f.value.val resolve).truthy = true

/-- What is left of the text is no registry: no item is left, or fields without an item, or in another column than the
item above. -/
def Rejected (prev : List Item) (orphans : List (ℕ × Field)) (next : List Item) : Prop :=
  (prev = [] ∧ (orphans ≠ [] ∨ next = [])) ∨ ∃ last ∈ prev.getLast?, ∃ x ∈ orphans, last.column ≠ some x.1

/-- The block takes no other item with it, and leaves no field behind that changes the flag of the item above. -/
def LeavesItems (before block behind : List Line) : Prop :=
  (parseItems block).2 = [] ∧ ∀ last ∈ (parseItems before).2.getLast?, ∀ x ∈ (parseItems behind).1,
    x.2.key = .enabled → (x.2.value.val resolve).truthy = last.flag resolve

/-- Removing the entry: the rest is no registry, or the block leaves the items of the others. -/
def RemoveSafe (before after : List Line) : Prop :=
  Rejected (parseItems before).2 (parseItems (linesBehind after)).1 (parseItems (linesBehind after)).2 ∨
    LeavesItems resolve before (blockLines after) (linesBehind after)

/-- When an edit keeps the frame. -/
def EditSafe (ls : List Line) (a : AgentId) : RegistryEdit → Prop
  | .append => True
  | .setEnabled enabled => ∀ before t after, IsTarget a ls before t after → SetSafe resolve enabled after
  | .remove => ∀ before t after, IsTarget a ls before t after → RemoveSafe resolve before after

end Conditions

/-! ### Items and their entries -/

section Items

variable {resolve : List Char → Val} {items : List Item} {es : List RegistryEntry} {item : Item} {a : AgentId}

/-- The entries of a list of items. -/
def entriesOf (resolve : List Char → Val) (items : List Item) : List RegistryEntry :=
  items.filterMap (Item.entry resolve)

theorem loads_iff : Loads resolve items es ↔ (∀ item ∈ items, (item.entry resolve).isSome = true) ∧
    es = entriesOf resolve items ∧ (es.map RegistryEntry.id).Nodup := by
  have hmap : items.map (Item.entry resolve) = es.map some ↔
      (∀ item ∈ items, (item.entry resolve).isSome = true) ∧ es = entriesOf resolve items := by
    induction items generalizing es with
    | nil => cases es <;> simp [entriesOf]
    | cons item items ih =>
        rw [List.map_cons, List.forall_mem_cons]
        cases hitem : item.entry resolve with
        | none =>
            constructor
            · intro h
              cases es with
              | nil => cases h
              | cons e es => cases (List.cons.inj h).1
            · rintro ⟨⟨h, -⟩, -⟩
              cases h
        | some e =>
            have hentries : entriesOf resolve (item :: items) = e :: entriesOf resolve items :=
              List.filterMap_cons_some hitem
            rw [hentries]
            cases es with
            | nil => simp
            | cons e' es =>
                rw [List.map_cons, List.cons.injEq, ih, List.cons.injEq, Option.some.injEq, eq_comm]
                constructor
                · rintro ⟨he, hsome, hes⟩
                  exact ⟨⟨rfl, hsome⟩, he, hes⟩
                · rintro ⟨⟨-, hsome⟩, he, hes⟩
                  exact ⟨he, hsome, hes⟩
  constructor
  · rintro ⟨hentries, hdistinct⟩
    obtain ⟨hsome, hes⟩ := hmap.1 hentries
    exact ⟨hsome, hes, hdistinct⟩
  · rintro ⟨hsome, hes, hdistinct⟩
    exact ⟨hmap.2 ⟨hsome, hes⟩, hdistinct⟩

theorem entriesOf_append (x y : List Item) :
    entriesOf resolve (x ++ y) = entriesOf resolve x ++ entriesOf resolve y :=
  List.filterMap_append

theorem entriesOf_cons {e : RegistryEntry} (h : item.entry resolve = some e) :
    entriesOf resolve (item :: items) = e :: entriesOf resolve items :=
  List.filterMap_cons_some h

/-- The value of a key in a list of fields. -/
def fieldValue (fs : List Field) (key : EntryKey) : Option Scalar :=
  ((fs.filter fun f => decide (f.key = key)).getLast?).map Field.value

theorem fieldValue_append (x y : List Field) (key : EntryKey) :
    fieldValue (x ++ y) key = (fieldValue y key).or (fieldValue x key) := by
  unfold fieldValue
  rw [List.filter_append, List.getLast?_append, Option.map_or]

theorem fieldValue_eq_none {fs : List Field} {key : EntryKey} (h : ∀ f ∈ fs, f.key ≠ key) : fieldValue fs key = none := by
  have hnil : fs.filter (fun f => decide (f.key = key)) = [] := by
    rw [List.filter_eq_nil_iff]
    intro f hf
    simpa using h f hf
  rw [fieldValue, hnil]
  rfl

theorem fieldValue_cons_of_ne {fs : List Field} {f : Field} {key : EntryKey} (h : f.key ≠ key) :
    fieldValue (f :: fs) key = fieldValue fs key := by
  unfold fieldValue
  rw [List.filter_cons_of_neg (by simpa using h)]

/-- A key that comes once has the value of its field. -/
theorem fieldValue_of_mem {fs : List Field} {f : Field} (h : (fs.map Field.key).Nodup) (hf : f ∈ fs) :
    fieldValue fs f.key = some f.value := by
  obtain ⟨x, y, rfl⟩ := List.append_of_mem hf
  rw [List.map_append, List.map_cons, List.nodup_append] at h
  obtain ⟨-, hy, -⟩ := h
  have hnone : fieldValue y f.key = none := by
    apply fieldValue_eq_none
    intro g hg heq
    exact (List.nodup_cons.1 hy).1 (List.mem_map.2 ⟨g, hg, heq⟩)
  have hone : fieldValue [f] f.key = some f.value := by
    unfold fieldValue
    rw [List.filter_cons_of_pos (by simp)]
    rfl
  rw [fieldValue_append, ← List.singleton_append, fieldValue_append, hnone, Option.none_or, hone]
  rfl

theorem value_eq (item : Item) (key : EntryKey) : item.value key = fieldValue item.fields key :=
  rfl

theorem fields_withTail (item : Item) (fs : List (ℕ × Field)) :
    (item.withTail fs).fields = item.fields ++ fs.map Prod.snd := by
  simp [Item.fields, Item.withTail]

/-- The value of an item with more fields: those fields come first. -/
theorem value_withTail (item : Item) (fs : List (ℕ × Field)) (key : EntryKey) :
    (item.withTail fs).value key = (fieldValue (fs.map Prod.snd) key).or (item.value key) := by
  rw [value_eq, fields_withTail, fieldValue_append, value_eq]

/-- The id of an item depends on the value of its key only. -/
theorem agentId_congr {item' : Item} (h : item'.value .id = item.value .id) :
    item'.agentId? resolve = item.agentId? resolve := by
  unfold Item.agentId?
  rw [h]

theorem flag_congr {item' : Item} (h : item'.value .enabled = item.value .enabled) :
    item'.flag resolve = item.flag resolve := by
  unfold Item.flag
  rw [h]

theorem entry_eq_some {e : RegistryEntry} :
    item.entry resolve = some e ↔ item.agentId? resolve = some e.id ∧ item.flag resolve = e.enabled := by
  unfold Item.entry
  rw [Option.map_eq_some_iff]
  constructor
  · rintro ⟨id, hid, rfl⟩
    exact ⟨hid, rfl⟩
  · rintro ⟨hid, hflag⟩
    exact ⟨e.id, hid, by rw [hflag]⟩

theorem strip_word {w : List Char} (h : ∀ c ∈ w, isSpace c = false) : strip (String.ofList w) = String.ofList w := by
  have hhead : ∀ l : List Char, (∀ c ∈ l, isSpace c = false) → l.dropWhile isSpace = l := by
    intro l hl
    exact Text.dropWhile_of_head fun c hc => hl c (List.mem_of_mem_head? hc)
  unfold strip
  rw [String.toList_ofList, hhead w h, hhead w.reverse fun c hc => h c (List.mem_reverse.1 hc), List.reverse_reverse]

/-- The id of an item that names the agent as a plain word. -/
theorem agentId_of_value {safeLoad : List Char → Except String Val} (hyaml : ReadsBlocks resolve safeLoad) {id : String}
    (hvalue : item.value .id = some (.plain a.chars)) (h : item.agentId? resolve = some id) : id = a.text := by
  unfold Item.agentId? at h
  rw [hvalue] at h
  dsimp only [Scalar.val] at h
  split at h
  · rename_i rawId hraw
    have hid : rawId = a.text := hyaml.plain_str _ _ hraw
    have hstrip : strip a.text = a.text := strip_word fun c hc => (wordChar_not (a.word c hc)).1
    rw [hid, hstrip] at h
    split at h
    · cases h
    · split at h
      · exact (Option.some.inj h).symm
      · cases h
  · cases h

/-! ### Layout -/

theorem readDoc_iff {ls : List Line} : readDoc ls = some items ↔
    .crowded ∉ ls ∧ parseItems ls = ([], items) ∧ items ≠ [] ∧ Level items := by
  unfold readDoc
  generalize parseItems ls = p
  obtain ⟨lead, items'⟩ := p
  dsimp only
  split
  case isTrue h =>
    obtain ⟨hcrowded, rfl, hne, hlevel⟩ := h
    constructor
    · intro heq
      obtain rfl := Option.some.inj heq
      exact ⟨hcrowded, rfl, hne, hlevel⟩
    · rintro ⟨-, heq, -⟩
      rw [(Prod.mk.inj heq).2]
  case isFalse h =>
    constructor
    · intro heq
      cases heq
    · rintro ⟨hcrowded, heq, hne, hlevel⟩
      obtain ⟨rfl, rfl⟩ := Prod.mk.inj heq
      exact absurd ⟨hcrowded, rfl, hne, hlevel⟩ h

theorem level_iff (hne : items ≠ []) : Level items ↔ ∃ n, ∀ item ∈ items, item.indent = n ∧ item.Aligned := by
  obtain ⟨first, rest, rfl⟩ := List.exists_cons_of_ne_nil hne
  constructor
  · intro h
    exact ⟨first.indent, h first rfl⟩
  · rintro ⟨n, h⟩ first' hfirst item hitem
    obtain rfl := Option.some.inj hfirst
    have hn := (h first List.mem_cons_self).1
    rw [hn]
    exact h item hitem

/-- All dashes of a well laid out text stand at one indentation, and so do those of its parts. -/
theorem bareLevel_of_dashes {ls ls' : List Line} (h : readDoc ls = some items)
    (hsub : ∀ n first, .dash n first ∈ ls' → .dash n first ∈ ls) : BareLevel ls' := by
  obtain ⟨-, hparse, hne, hlevel⟩ := readDoc_iff.1 h
  obtain ⟨n, hn⟩ := (level_iff hne).1 hlevel
  have hindent : ∀ m first, .dash m first ∈ ls' → m = n := by
    intro m first hm
    obtain ⟨item, hitem, rfl, -⟩ := mem_items_iff.1 (hsub m first hm)
    rw [hparse] at hitem
    exact (hn item hitem).1
  intro m hm item hitem
  rw [hindent m none hm]
  exact (hindent _ _ (mem_items_iff.2 ⟨item, List.mem_of_mem_head? hitem, rfl, rfl⟩)).symm

theorem column_withTail (item : Item) (fs : List (ℕ × Field)) (h : item.Aligned) :
    (item.withTail fs).column = item.column := by
  obtain ⟨indent, first, tail⟩ := item
  cases first with
  | some x => rfl
  | none =>
      obtain ⟨c, hc, -⟩ := h
      cases tail with
      | nil => cases hc
      | cons x tail => rfl

/-- An item stays aligned when the fields behind it stand in its column. -/
theorem aligned_withTail {fs : List (ℕ × Field)} (h : item.Aligned) :
    (item.withTail fs).Aligned ↔ ∀ x ∈ fs, item.column = some x.1 := by
  have hcolumn := column_withTail item fs h
  obtain ⟨c, hc, hindent, htail⟩ := h
  constructor
  · rintro ⟨c', hc', -, htail'⟩ x hx
    rw [hcolumn] at hc'
    rw [hc', htail' x (List.mem_append_right _ hx)]
  · intro hfs
    refine ⟨c, hcolumn.trans hc, hindent, fun x hx => ?_⟩
    obtain hx | hx := List.mem_append.1 hx
    · exact htail x hx
    · have := hfs x hx
      rw [hc] at this
      exact (Option.some.inj this).symm

end Items

/-! ### The check of an edit -/

section Check

variable {safeLoad : List Char → Except String Val} {a : AgentId} {file new : List Char} {es : List RegistryEntry}
  {edit : RegistryEdit} {check : List RegistryEntry → Bool}

/-- An edit that writes a new text keeps the frame when the text does, as far as it loads and passes the check. -/
theorem keepsFrame_replace (hrun : edit.run safeLoad a file = replaceValidated safeLoad file new check) :
    KeepsFrame safeLoad a file es edit ↔ ∀ es', loadRegistry safeLoad new = .ok es' → check es' = true →
      others a es' = others a es ∧ edit.Done a es' := by
  unfold KeepsFrame
  rw [hrun]
  unfold replaceValidated
  cases hload : loadRegistry safeLoad new with
  | error e => simp
  | ok es' =>
      dsimp only
      cases hcheck : check es' with
      | true =>
          simp only [if_true]
          constructor
          · rintro ⟨es'', hes'', h⟩ es₀ hes₀ -
            rw [hload] at hes''
            obtain rfl := Except.ok.inj hes''
            obtain rfl := Except.ok.inj hes₀
            exact h
          · intro h
            exact ⟨es', hload, h es' rfl hcheck⟩
      | false =>
          simp only [Bool.false_eq_true, if_false]
          constructor
          · rintro - es₀ hes₀ hcheck'
            obtain rfl := Except.ok.inj hes₀
            rw [hcheck] at hcheck'
            cases hcheck'
          · intro _
            trivial

/-- The others of a list with one entry of the agent. -/
theorem others_split {x y : List RegistryEntry} {e : RegistryEntry} (he : e.id = a.text)
    (h : ((x ++ e :: y).map RegistryEntry.id).Nodup) : others a (x ++ e :: y) = x ++ y := by
  have hkeep : ∀ e' ∈ x ++ y, e'.id ≠ a.text := by
    intro e' he' heq
    rw [List.map_append, List.map_cons, List.nodup_middle, List.nodup_cons, ← List.map_append] at h
    exact h.1 (he ▸ heq ▸ List.mem_map_of_mem he')
  unfold others
  rw [List.filter_append, List.filter_cons_of_neg (by simp [he]), ← List.filter_append, List.filter_eq_self]
  intro e' he'
  exact decide_eq_true (hkeep e' he')

end Check

end ProjectManager
