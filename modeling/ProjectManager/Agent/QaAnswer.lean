import ProjectManager.Inbox.Slack
import ProjectManager.Lib.Substitution

/-!
# Replies of the inbox

`sanitize_reply` takes the mention phrase out of a reply in one pass, and defuses broadcasts.  The pass leaves a
phrase behind where the characters around a replaced one make up a new one (`mentions_iff_echoes`): `sanitize_reply_iff`
says that such an echo is all that can go wrong.
-/

namespace ProjectManager

open Pattern Text

/-! ### The source -/

/-- `[a-z0-9_-]`. -/
def isIdChar (c : Char) : Bool :=
  inRanges [('a', 'z'), ('0', '9')] c || c == '_' || c == '-'

/-- `_AGENT_ID_RE.match`; the end of the pattern may stand before a line feed. -/
def validAgentId (id : String) : Bool :=
  match id.toList with
  | [] => false
  | c :: cs =>
      inRanges [('a', 'z'), ('0', '9')] c &&
        (cs.all isIdChar || (cs.getLast? == some '\n' && cs.dropLast.all isIdChar))

/-- `sanitize_reply`; under `re.IGNORECASE` a character `c` of the phrase takes the characters of `sameCase c`. -/
def sanitizeReply (py : Python) (sameCase : Char → Char → Bool) (reply agentId : String) : String :=
  let cleaned := replaceAll py.isWord (phrase sameCase ('@' :: agentId.toList)) agentId reply
  replaceAll py.isWord (lit "<!") "<\u200b!" cleaned

/-! ### Mentions -/

section

variable {word : Char → Bool} {same : Char → Char → Bool} {id text : List Char}

/-- The text has an at sign with the name of the agent behind it, in any letter case. -/
def Mentions (same : Char → Char → Bool) (id text : List Char) : Prop :=
  ∃ y, Variant same id y ∧ '@' :: y <:+: text

/-- A mention follows an at sign so closely that what stands between, with the name behind it, is a name again. -/
def Echoes (same : Char → Char → Bool) (id text : List Char) : Prop :=
  ∃ p x, '@' :: (p ++ '@' :: x) <:+: text ∧ Variant same id x ∧ p.length < id.length ∧
    Variant same id ((p ++ id).take id.length)

/-- The phrase of an agent: its name has no at sign in any case, and an at sign is itself only. -/
structure IsHandle (same : Char → Char → Bool) (id : List Char) : Prop where
  at_self : same '@' '@' = true
  at_only : ∀ d, same '@' d = true → d = '@'
  name : ∀ y, Variant same id y → '@' ∉ y
  self : Variant same id id

variable (hid : IsHandle same id)
include hid

/-- The phrase is an at sign and the name. -/
theorem variant_handle {x : List Char} : Variant same ('@' :: id) x ↔ ∃ y, x = '@' :: y ∧ Variant same id y := by
  constructor
  · rintro (_ | ⟨hat, hy⟩)
    rename_i d y
    obtain rfl := hid.at_only d hat
    exact ⟨y, rfl, hy⟩
  · rintro ⟨y, rfl, hy⟩
    exact .cons hid.at_self hy

/-- What begins the cleaned text began the text, or a replaced mention came in between. -/
theorem begins_of_clean {y : List Char} (h : y <+: substitute word (phrase same ('@' :: id)) id text) :
    y <+: text ∨ ∃ p x rest, text = p ++ '@' :: x ++ rest ∧ Variant same id x ∧ p.length < y.length ∧
      y <+: p ++ id ++ substitute word (phrase same ('@' :: id)) id rest := by
  have hcs : '@' :: id ≠ [] := by simp
  revert y
  induction text using substitute_induction same hcs with
  | nil =>
      intro y h
      exact Or.inl h
  | hit x rest hx ih =>
      intro y h
      obtain ⟨x, rfl, hx'⟩ := (variant_handle hid).1 hx
      rw [substitute_hit hcs hx] at h
      cases y with
      | nil =>
          exact Or.inl List.nil_prefix
      | cons d y =>
          exact Or.inr ⟨[], x, rest, rfl, hx', by simp, h⟩
  | skip c rest hno ih =>
      intro y h
      rw [substitute_skip hcs hno] at h
      cases y with
      | nil =>
          exact Or.inl List.nil_prefix
      | cons d y =>
          obtain ⟨rfl, hy⟩ := List.cons_prefix_cons.1 h
          obtain hbegin | ⟨p, x, rest', rfl, hx, hlen, hbegin⟩ := ih hy
          · exact Or.inl (List.cons_prefix_cons.2 ⟨rfl, hbegin⟩)
          · refine Or.inr ⟨d :: p, x, rest', rfl, hx, by simpa using hlen, ?_⟩
            exact List.cons_prefix_cons.2 ⟨rfl, hbegin⟩

/-- A mention in the cleaned text comes from an echo. -/
theorem echoes_of_mentions (h : Mentions same id (substitute word (phrase same ('@' :: id)) id text)) :
    Echoes same id text := by
  have hcs : '@' :: id ≠ [] := by simp
  have hmono : ∀ {a b : List Char}, Echoes same id b → Echoes same id (a ++ b) := by
    rintro a b ⟨p, x, hin, hrest⟩
    exact ⟨p, x, hin.trans (List.suffix_append a b).isInfix, hrest⟩
  induction text using substitute_induction same hcs with
  | nil =>
      obtain ⟨y, -, hin⟩ := h
      cases List.infix_nil.1 hin
  | hit x rest hx ih =>
      rw [substitute_hit hcs hx] at h
      obtain ⟨y, hy, hin⟩ := h
      exact hmono (ih ⟨y, hy, infix_of_not_mem (hid.name id hid.self) hin⟩)
  | skip c rest hno ih =>
      rw [substitute_skip hcs hno] at h
      obtain ⟨y, hy, hin⟩ := h
      obtain hbegin | hin := List.infix_cons_iff.1 hin
      · obtain ⟨rfl, hname⟩ := List.cons_prefix_cons.1 hbegin
        obtain ⟨rest', rfl⟩ | ⟨p, x, rest', rfl, hx, hlen, hbegin⟩ := begins_of_clean hid hname
        · exact absurd rfl (hno ('@' :: y) rest' ((variant_handle hid).2 ⟨y, rfl, hy⟩))
        · have hname : y = (p ++ id).take id.length := by
            rw [hy.length_eq, ← List.prefix_iff_eq_take]
            apply List.prefix_of_prefix_length_le hbegin (List.prefix_append _ _)
            rw [List.length_append, ← hy.length_eq]
            omega
          refine ⟨p, x, ⟨[], rest', by simp⟩, hx, ?_, hname ▸ hy⟩
          rw [hy.length_eq]
          exact hlen
      · exact hmono (a := [c]) (ih ⟨y, hy, hin⟩)

/-- A text without an at sign is left as it is. -/
theorem clean_of_not_mem (h : '@' ∉ text) : substitute word (phrase same ('@' :: id)) id text = text := by
  have hcs : '@' :: id ≠ [] := by simp
  induction text using substitute_induction same hcs with
  | nil =>
      rfl
  | hit x rest hx ih =>
      obtain ⟨x, rfl, -⟩ := (variant_handle hid).1 hx
      simp at h
  | skip c rest hno ih =>
      rw [substitute_skip hcs hno, ih fun hmem => h (List.mem_cons_of_mem _ hmem)]

/-- A name ends before the next at sign. -/
theorem length_le_of_name {a b y r : List Char} (hy : Variant same id y) (h : a ++ '@' :: b = y ++ r) :
    ∃ s, a = y ++ s := by
  obtain ⟨s, hs, hrest⟩ | ⟨s, hs, -⟩ := List.append_eq_append_iff.1 h
  · cases s with
    | nil =>
        exact ⟨[], by simp [hs]⟩
    | cons d s =>
        obtain ⟨rfl, -⟩ := List.cons.inj hrest
        exact absurd (by simp [hs]) (hid.name y hy)
  · exact ⟨s, hs⟩

/-- What comes before an at sign is cleaned by itself. -/
theorem clean_append_at {a b : List Char} : substitute word (phrase same ('@' :: id)) id (a ++ '@' :: b) =
    substitute word (phrase same ('@' :: id)) id a ++ substitute word (phrase same ('@' :: id)) id ('@' :: b) := by
  have hcs : '@' :: id ≠ [] := by simp
  induction a using substitute_induction same hcs with
  | nil =>
      rfl
  | hit x rest hx ih =>
      rw [List.append_assoc, substitute_hit hcs hx, substitute_hit hcs hx, ih, List.append_assoc]
  | skip c rest hno ih =>
      have hno' : ∀ x r, Variant same ('@' :: id) x → c :: (rest ++ '@' :: b) ≠ x ++ r := by
        intro x r hx heq
        obtain ⟨y, rfl, hy⟩ := (variant_handle hid).1 hx
        simp only [List.cons_append, List.cons.injEq] at heq
        obtain ⟨rfl, heq⟩ := heq
        obtain ⟨s, rfl⟩ := length_le_of_name hid hy heq
        exact hno ('@' :: y) s hx rfl
      rw [List.cons_append, substitute_skip hcs hno', substitute_skip hcs hno, ih, List.cons_append]

/-- An echo leaves a mention. -/
theorem mentions_of_echoes (h : Echoes same id text) : Mentions same id (substitute word (phrase same ('@' :: id)) id text) := by
  have hcs : '@' :: id ≠ [] := by simp
  obtain ⟨p, x, ⟨a, b, rfl⟩, hx, hlen, hname⟩ := h
  have htake : (p ++ id).take id.length = p ++ id.take (id.length - p.length) := by
    rw [List.take_append, List.take_of_length_le (by omega)]
  have hp : '@' ∉ p := by
    intro hmem
    apply hid.name _ hname
    rw [htake]
    exact List.mem_append_left _ hmem
  -- the first at sign stays, since the second one follows too soon
  have hno : ∀ x' r, Variant same ('@' :: id) x' → '@' :: (p ++ '@' :: (x ++ b)) ≠ x' ++ r := by
    intro x' r hx' heq
    obtain ⟨y, rfl, hy⟩ := (variant_handle hid).1 hx'
    obtain ⟨s, rfl⟩ := length_le_of_name hid hy (List.cons.inj heq).2
    rw [List.length_append, ← hy.length_eq] at hlen
    omega
  have hhit : substitute word (phrase same ('@' :: id)) id ('@' :: x ++ b) =
      id ++ substitute word (phrase same ('@' :: id)) id b :=
    substitute_hit hcs ((variant_handle hid).2 ⟨x, rfl, hx⟩)
  have hclean : substitute word (phrase same ('@' :: id)) id (a ++ '@' :: (p ++ '@' :: x) ++ b) =
      substitute word (phrase same ('@' :: id)) id a ++
        '@' :: (p ++ (id ++ substitute word (phrase same ('@' :: id)) id b)) := by
    rw [show a ++ '@' :: (p ++ '@' :: x) ++ b = a ++ '@' :: (p ++ '@' :: (x ++ b)) by simp, clean_append_at hid,
      substitute_skip hcs hno, clean_append_at hid, clean_of_not_mem hid hp, ← hhit]
    rfl
  refine ⟨_, hname, ?_⟩
  rw [hclean]
  refine List.IsInfix.trans ?_ (List.suffix_append _ _).isInfix
  refine (List.cons_prefix_cons.2 ⟨rfl, ?_⟩).isInfix
  rw [← List.append_assoc]
  exact (List.take_prefix _ _).trans (List.prefix_append _ _)

/-- One pass leaves a mention exactly when the text has an echo. -/
theorem mentions_iff_echoes : Mentions same id (substitute word (phrase same ('@' :: id)) id text) ↔ Echoes same id text :=
  ⟨echoes_of_mentions hid, mentions_of_echoes hid⟩

/-- A text without mentions is left as it is. -/
theorem clean_of_not_mentions (h : ¬ Mentions same id text) :
    substitute word (phrase same ('@' :: id)) id text = text := by
  have hcs : '@' :: id ≠ [] := by simp
  induction text using substitute_induction same hcs with
  | nil =>
      rfl
  | hit x rest hx ih =>
      obtain ⟨x, rfl, hx'⟩ := (variant_handle hid).1 hx
      exact absurd ⟨x, hx', (List.prefix_append _ _).isInfix⟩ h
  | skip c rest hno ih =>
      rw [substitute_skip hcs hno, ih]
      rintro ⟨y, hy, hin⟩
      exact h ⟨y, hy, hin.trans (List.suffix_cons c rest).isInfix⟩

end

/-! ### Broadcasts -/

section

variable {word : Char → Bool} {text u : List Char}

/-- The text with its broadcasts defused. -/
def defuse (word : Char → Bool) (text : List Char) : List Char :=
  substitute word (lit "<!") ['<', '​', '!'] text

/-- A text is empty, begins with a broadcast, or with another character. -/
theorem defuse_induction (word : Char → Bool) {motive : List Char → Prop} (nil : motive [])
    (hit : ∀ rest, defuse word ('<' :: '!' :: rest) = '<' :: '​' :: '!' :: defuse word rest → motive rest →
      motive ('<' :: '!' :: rest))
    (skip : ∀ c rest, (∀ rest', c :: rest ≠ '<' :: '!' :: rest') → defuse word (c :: rest) = c :: defuse word rest →
      motive rest → motive (c :: rest)) (text : List Char) : motive text := by
  have hcs : "<!".toList ≠ [] := by decide
  have hvariant : ∀ {x : List Char}, Variant (fun c d => d == c) "<!".toList x ↔ x = ['<', '!'] := by
    intro x
    rw [variant_literal, show "<!".toList = ['<', '!'] by decide]
  induction text using substitute_induction (fun c d => d == c) hcs with
  | nil =>
      exact nil
  | hit x rest hx ih =>
      obtain rfl := hvariant.1 hx
      exact hit rest (substitute_hit hcs hx) ih
  | skip c rest hno ih =>
      refine skip c rest (fun rest' heq => hno _ rest' (hvariant.2 rfl) heq) (substitute_skip hcs hno) ih

theorem head_defuse : (defuse word text).head? = text.head? := by
  induction text using defuse_induction word with
  | nil =>
      rfl
  | hit rest heq ih =>
      rw [heq]
      rfl
  | skip c rest hno heq ih =>
      rw [heq]
      rfl

/-- No broadcast is left. -/
theorem not_broadcast_defuse : ¬ ['<', '!'] <:+: defuse word text := by
  induction text using defuse_induction word with
  | nil =>
      intro hin
      cases List.infix_nil.1 hin
  | hit rest heq ih =>
      rw [heq]
      intro hin
      obtain hbegin | hin := List.infix_cons_iff.1 hin
      · simp at hbegin
      · have hrest : ['<', '!'] <:+: ['\u200b', '!'] ++ defuse word rest := hin
        exact ih (infix_of_not_mem (by decide) hrest)
  | skip c rest hno heq ih =>
      rw [heq]
      intro hin
      obtain hbegin | hin := List.infix_cons_iff.1 hin
      · obtain ⟨rfl, hbang⟩ := List.cons_prefix_cons.1 hbegin
        obtain ⟨more, hmore⟩ := hbang
        have hhead : (defuse word rest).head? = rest.head? := head_defuse
        rw [← hmore] at hhead
        cases rest with
        | nil =>
            cases hhead
        | cons d rest =>
            obtain rfl := Option.some.inj hhead
            exact hno rest rfl
      · exact ih hin

/-- A text without broadcasts is left as it is. -/
theorem defuse_of_not_broadcast (h : ¬ ['<', '!'] <:+: text) : defuse word text = text := by
  induction text using defuse_induction word with
  | nil =>
      rfl
  | hit rest heq ih =>
      exact absurd ⟨[], rest, rfl⟩ h
  | skip c rest hno heq ih =>
      rw [heq, ih fun hin => h (hin.trans (List.suffix_cons c rest).isInfix)]

/-- What has none of the characters of a broadcast begins a defused text only where it began the text. -/
theorem prefix_defuse (hu : ∀ c ∈ u, c ∉ ['<', '!', '\u200b']) : u <+: defuse word text ↔ u <+: text := by
  induction text using defuse_induction word generalizing u with
  | nil =>
      rfl
  | hit rest heq ih =>
      rw [heq]
      cases u with
      | nil =>
          exact iff_of_true List.nil_prefix List.nil_prefix
      | cons c u =>
          have hc : c ≠ '<' := fun h => hu c List.mem_cons_self (by simp [h])
          simp [List.cons_prefix_cons, hc]
  | skip c rest hno heq ih =>
      rw [heq]
      cases u with
      | nil =>
          exact iff_of_true List.nil_prefix List.nil_prefix
      | cons d u =>
          rw [List.cons_prefix_cons, List.cons_prefix_cons, ih fun c hc => hu c (List.mem_cons_of_mem _ hc)]

/-- What has none of the characters of a broadcast stands in a defused text only where it stood in the text. -/
theorem infix_defuse {c : Char} (hu : ∀ d ∈ c :: u, d ∉ ['<', '!', '\u200b']) :
    c :: u <:+: defuse word text ↔ c :: u <:+: text := by
  have hc : c ∉ ['<', '!', '\u200b'] := hu c List.mem_cons_self
  induction text using defuse_induction word with
  | nil =>
      rfl
  | hit rest heq ih =>
      rw [heq]
      constructor
      · intro h
        have hin := infix_of_not_mem (a := ['<', '\u200b', '!']) (by simp_all) h
        exact (ih.1 hin).trans (List.suffix_append ['<', '!'] rest).isInfix
      · intro h
        have hin := infix_of_not_mem (a := ['<', '!']) (by simp_all) h
        exact (ih.2 hin).trans (List.suffix_append ['<', '\u200b', '!'] _).isInfix
  | skip d rest hno heq ih =>
      have hbegin : c :: u <+: defuse word (d :: rest) ↔ c :: u <+: d :: rest := prefix_defuse hu
      rw [heq] at hbegin ⊢
      rw [List.infix_cons_iff, List.infix_cons_iff]
      exact or_congr hbegin ih

end

/-! ### Letter case -/

/-- A character of the phrase of an agent. -/
def PhraseChar (c : Char) : Prop :=
  c = '@' ∨ isIdChar c = true ∨ c = '\n'

/-- What is documented of `re.IGNORECASE` and `str.lower`, as far as the phrase of an agent goes. -/
structure IgnoresCase (py : Python) (sameCase : Char → Char → Bool) : Prop where
  refl : ∀ c, sameCase c c = true
  /-- characters without case are only themselves -/
  symbols : ∀ c d, sameCase c d = true → c ∈ ['@', '<', '!', '\u200b'] ∨ d ∈ ['@', '<', '!', '\u200b'] → c = d
  /-- the phrase is in lower case -/
  phrases : ∀ s : String, (∀ c ∈ s.toList, PhraseChar c) → py.lower s = s
  /-- every character is lowered to some characters; one of the phrase comes first among them, and only from a
  character that is the same in another case -/
  lowered : ∀ text : String, ∃ images : List (Char × List Char), text.toList = images.map (fun p => p.1) ∧
    (py.lower text).toList = images.flatMap (fun p => p.2) ∧ ∀ p ∈ images, p.2 ≠ [] ∧
      (∀ c ∈ p.2.head?, PhraseChar c → sameCase c p.1 = true) ∧ ∀ c ∈ p.2.tail, ¬ PhraseChar c

section

variable {py : Python} {sameCase : Char → Char → Bool} {agentId reply : String}

theorem char_of_validAgentId (h : validAgentId agentId = true) : ∀ c ∈ agentId.toList, isIdChar c = true ∨ c = '\n' := by
  unfold validAgentId at h
  split at h
  · cases h
  · rename_i c cs hcs
    rw [hcs]
    simp only [Bool.and_eq_true, Bool.or_eq_true, List.all_eq_true, beq_iff_eq] at h
    obtain ⟨hc, hrest⟩ := h
    intro d hd
    obtain rfl | hd := List.mem_cons.1 hd
    · left
      simp [isIdChar, hc]
    · obtain hall | ⟨hlast, hall⟩ := hrest
      · exact Or.inl (hall d hd)
      · obtain ⟨front, rfl⟩ := List.getLast?_eq_some_iff.1 hlast
        rw [List.dropLast_concat] at hall
        obtain hd | hd := List.mem_append.1 hd
        · exact Or.inl (hall d hd)
        · exact Or.inr (List.mem_singleton.1 hd)

/-- No character of an id is an at sign or belongs to a broadcast. -/
theorem not_symbol_of_validAgentId (h : validAgentId agentId = true) :
    ∀ c ∈ agentId.toList, c ∉ ['@', '<', '!', '\u200b'] := by
  intro c hc hsymbol
  have hall : ∀ d ∈ ['@', '<', '!', '\u200b'], ¬ (isIdChar d = true ∨ d = '\n') := by
    simp only [List.forall_mem_cons]
    refine ⟨?_, ?_, ?_, ?_, by simp⟩
    all_goals decide
  exact hall c hsymbol (char_of_validAgentId h c hc)

/-- What stands for an id has no such character either. -/
theorem not_symbol_of_variant (hcase : IgnoresCase py sameCase) (h : validAgentId agentId = true) {y : List Char}
    (hy : Variant sameCase agentId.toList y) : ∀ c ∈ y, c ∉ ['@', '<', '!', '\u200b'] := by
  intro d hd hsymbol
  obtain ⟨c, hc, hsame⟩ := exists_of_variant hy hd
  obtain rfl := hcase.symbols c d hsame (Or.inr hsymbol)
  exact not_symbol_of_validAgentId h c hc hsymbol

theorem isHandle_of_validAgentId (hcase : IgnoresCase py sameCase) (h : validAgentId agentId = true) :
    IsHandle sameCase agentId.toList where
  at_self := hcase.refl '@'
  at_only := fun d hd => (hcase.symbols '@' d hd (Or.inl (by simp))).symm
  name := fun y hy hmem => not_symbol_of_variant hcase h hy '@' hmem (by simp)
  self := List.forall₂_same.2 fun c _ => hcase.refl c

/-- Phrase characters at the beginning of a lowered text come from as many characters of the text. -/
theorem variant_of_begins {images : List (Char × List Char)} {cs : List Char} (hcs : ∀ c ∈ cs, PhraseChar c)
    (himages : ∀ p ∈ images, p.2 ≠ [] ∧ (∀ c ∈ p.2.head?, PhraseChar c → sameCase c p.1 = true) ∧
      ∀ c ∈ p.2.tail, ¬ PhraseChar c) (h : cs <+: images.flatMap fun p => p.2) :
    ∃ y, y <+: images.map (fun p => p.1) ∧ Variant sameCase cs y := by
  induction images generalizing cs with
  | nil =>
      obtain rfl := List.prefix_nil.1 h
      exact ⟨[], List.nil_prefix, .nil⟩
  | cons p images ih =>
      obtain ⟨⟨hne, hhead, htail⟩, hrest⟩ := List.forall_mem_cons.1 himages
      obtain ⟨d, img⟩ := p
      cases cs with
      | nil =>
          exact ⟨[], List.nil_prefix, .nil⟩
      | cons c cs =>
          obtain ⟨hc, hcs⟩ := List.forall_mem_cons.1 hcs
          cases img with
          | nil =>
              exact absurd rfl hne
          | cons i tl =>
              obtain ⟨rfl, hbegin⟩ := List.cons_prefix_cons.1 h
              have hsame : sameCase c d = true := hhead c rfl hc
              cases tl with
              | nil =>
                  obtain ⟨y, hy, hvariant⟩ := ih hcs hrest hbegin
                  exact ⟨d :: y, List.cons_prefix_cons.2 ⟨rfl, hy⟩, .cons hsame hvariant⟩
              | cons t tl =>
                  cases cs with
                  | nil =>
                      exact ⟨[d], List.cons_prefix_cons.2 ⟨rfl, List.nil_prefix⟩, .cons hsame .nil⟩
                  | cons c' cs =>
                      obtain ⟨rfl, -⟩ := List.cons_prefix_cons.1 hbegin
                      exact absurd (hcs c' List.mem_cons_self) (htail c' List.mem_cons_self)

/-- Phrase characters anywhere in a lowered text come from as many characters of the text. -/
theorem variant_of_stands {images : List (Char × List Char)} {c : Char} {cs : List Char}
    (hcs : ∀ d ∈ c :: cs, PhraseChar d)
    (himages : ∀ p ∈ images, p.2 ≠ [] ∧ (∀ c ∈ p.2.head?, PhraseChar c → sameCase c p.1 = true) ∧
      ∀ c ∈ p.2.tail, ¬ PhraseChar c) (h : c :: cs <:+: images.flatMap fun p => p.2) :
    ∃ y, y <:+: images.map (fun p => p.1) ∧ Variant sameCase (c :: cs) y := by
  induction images with
  | nil =>
      cases List.infix_nil.1 h
  | cons p images ih =>
      obtain ⟨⟨hne, -, htail⟩, hrest⟩ := List.forall_mem_cons.1 himages
      obtain ⟨d, img⟩ := p
      cases img with
      | nil =>
          exact absurd rfl hne
      | cons i tl =>
          have h : c :: cs <:+: i :: (tl ++ images.flatMap fun p => p.2) := h
          obtain hbegin | hin := List.infix_cons_iff.1 h
          · obtain ⟨y, hy, hvariant⟩ := variant_of_begins hcs himages hbegin
            exact ⟨y, hy.isInfix, hvariant⟩
          · have htl : c ∉ tl := fun hmem => htail c hmem (hcs c List.mem_cons_self)
            obtain ⟨y, hy, hvariant⟩ := ih hrest (infix_of_not_mem htl hin)
            exact ⟨y, hy.trans (List.suffix_cons _ _).isInfix, hvariant⟩

/-- A message that the inbox takes for a mention has one. -/
theorem mentions_of_isMention (hcase : IgnoresCase py sameCase) (hid : validAgentId agentId = true) {m : SlackMessage}
    (h : isMention py agentId m = true) : Mentions sameCase agentId.toList m.text.toList := by
  have hphrase : ∀ c ∈ '@' :: agentId.toList, PhraseChar c :=
    List.forall_mem_cons.2 ⟨Or.inl rfl, fun c hc => Or.inr (char_of_validAgentId hid c hc)⟩
  have hlist : ("@" ++ agentId).toList = '@' :: agentId.toList := by
    simp
  have hlower : py.lower ("@" ++ agentId) = "@" ++ agentId := hcase.phrases _ (by rwa [hlist])
  unfold isMention at h
  rw [contains_iff, hlower, hlist] at h
  obtain ⟨images, htext, hlowered, himages⟩ := hcase.lowered m.text
  rw [hlowered] at h
  obtain ⟨x, hin, hvariant⟩ := variant_of_stands hphrase himages h
  obtain ⟨y, rfl, hy⟩ := (variant_handle (isHandle_of_validAgentId hcase hid)).1 hvariant
  exact ⟨y, hy, htext ▸ hin⟩

/-! ### Sanitised replies -/

theorem sanitizeReply_toList : (sanitizeReply py sameCase reply agentId).toList =
    defuse py.isWord (substitute py.isWord (phrase sameCase ('@' :: agentId.toList)) agentId.toList reply.toList) := by
  have hnew : "<\u200b!".toList = ['<', '\u200b', '!'] := by
    decide
  simp only [sanitizeReply, replaceAll, String.toList_ofList, hnew, defuse, substitute, String.length_toList,
    String.length_ofList]

/-- What a sanitised reply promises. -/
structure Sanitized (py : Python) (sameCase : Char → Char → Bool) (agentId clean : String) : Prop where
  /-- no at sign has the name of the agent behind it -/
  unmentioned : ¬ Mentions sameCase agentId.toList clean.toList
  /-- there is no broadcast -/
  defused : Text.contains clean "<!" = false
  stable : sanitizeReply py sameCase clean agentId = clean
  /-- the inbox does not take the reply for a mention -/
  unanswered : ∀ m : SlackMessage, m.text = clean → isMention py agentId m = false

/-- Defusing neither brings nor takes a mention. -/
theorem mentions_defuse {word : Char → Bool} {text : List Char} (hcase : IgnoresCase py sameCase)
    (hid : validAgentId agentId = true) :
    Mentions sameCase agentId.toList (defuse word text) ↔ Mentions sameCase agentId.toList text := by
  refine exists_congr fun y => and_congr_right fun hy => infix_defuse ?_
  have hname := not_symbol_of_variant hcase hid hy
  refine List.forall_mem_cons.2 ⟨by decide, fun c hc hmem => ?_⟩
  exact hname c hc (List.mem_cons_of_mem _ hmem)

end

/-- A reply is sanitised in one pass exactly when it has no echo of the phrase. -/
theorem sanitize_reply_iff {py : Python} {sameCase : Char → Char → Bool} (hcase : IgnoresCase py sameCase)
    {agentId : String} (hid : validAgentId agentId = true) (reply : String) :
    Sanitized py sameCase agentId (sanitizeReply py sameCase reply agentId) ↔
      ¬ Echoes sameCase agentId.toList reply.toList := by
  have hhandle := isHandle_of_validAgentId hcase hid
  have hmentions : Mentions sameCase agentId.toList (sanitizeReply py sameCase reply agentId).toList ↔
      Echoes sameCase agentId.toList reply.toList := by
    rw [sanitizeReply_toList, mentions_defuse hcase hid, mentions_iff_echoes hhandle]
  constructor
  · intro h
    rw [← hmentions]
    exact h.unmentioned
  · intro h
    rw [← hmentions] at h
    have hbroadcast : ¬ ['<', '!'] <:+: (sanitizeReply py sameCase reply agentId).toList := by
      rw [sanitizeReply_toList]
      exact not_broadcast_defuse
    refine ⟨h, ?_, ?_, ?_⟩
    · rw [Bool.eq_false_iff]
      intro hcontains
      exact hbroadcast (contains_iff.1 hcontains)
    · apply String.toList_injective
      rw [sanitizeReply_toList, clean_of_not_mentions hhandle h, defuse_of_not_broadcast hbroadcast]
    · intro m hm
      rw [Bool.eq_false_iff]
      intro hmention
      have hfound := mentions_of_isMention hcase hid hmention
      rw [hm] at hfound
      exact h hfound

/-! ### Two replies -/

/-- The ASCII letters of one letter. -/
def sampleCase (c d : Char) : Bool :=
  d == c || d.toLower == c

theorem samplePython_ignoresCase : IgnoresCase samplePython sampleCase where
  refl := by
    intro c
    simp [sampleCase]
  symbols := by
    have hall : ∀ n < 128, Char.ofNat n ∈ ['@', '<', '!', '\u200b'] ∨ (Char.ofNat n).toLower ∈ ['@', '<', '!', '\u200b'] →
        (Char.ofNat n).toLower = Char.ofNat n := by
      decide
    intro c d hsame hsymbol
    have hlower : d ∈ ['@', '<', '!', '\u200b'] ∨ d.toLower ∈ ['@', '<', '!', '\u200b'] → d.toLower = d := by
      by_cases hascii : d.toNat < 128
      · exact ascii_induction (p := fun d => d ∈ ['@', '<', '!', '\u200b'] ∨ d.toLower ∈ ['@', '<', '!', '\u200b'] →
          d.toLower = d) hall d hascii
      · exact fun _ => toLower_of_not_ascii hascii
    simp only [sampleCase, Bool.or_eq_true, beq_iff_eq] at hsame
    obtain rfl | rfl := hsame
    · rfl
    · exact hlower hsymbol.symm
  phrases := by
    have hall : ∀ n < 128, Char.ofNat n = '@' ∨ isIdChar (Char.ofNat n) = true ∨ Char.ofNat n = '\n' →
        (Char.ofNat n).toLower = Char.ofNat n := by
      decide
    intro s hs
    apply String.toList_injective
    have hlower : (samplePython.lower s).toList = s.toList.map Char.toLower := by
      simp [samplePython, String.toLower]
    rw [hlower]
    refine (List.map_congr_left fun c hc => ?_).trans (List.map_id _)
    by_cases hascii : c.toNat < 128
    · exact ascii_induction (p := fun c => c = '@' ∨ isIdChar c = true ∨ c = '\n' → c.toLower = c) hall c hascii (hs c hc)
    · exact toLower_of_not_ascii hascii
  lowered := by
    intro text
    refine ⟨text.toList.map fun c => (c, [c.toLower]), ?_, ?_, ?_⟩
    · rw [List.map_map]
      exact (List.map_id _).symm
    · simp only [samplePython, String.toLower, String.toList_map, List.flatMap_map]
      exact List.map_eq_flatMap
    · intro p hp
      obtain ⟨c, -, rfl⟩ := List.mem_map.1 hp
      refine ⟨by simp, ?_, by simp⟩
      intro d hd _
      obtain rfl := Option.some.inj hd
      simp [sampleCase]

/-- With two at signs the phrase is back after one pass, and the inbox takes the reply for a mention. -/
theorem sanitize_leaves_mention : validAgentId "acme" = true ∧
    ¬ Sanitized samplePython sampleCase "acme" (sanitizeReply samplePython sampleCase "@@acme" "acme") ∧
    sanitizeReply samplePython sampleCase "@@acme" "acme" = "@acme" := by
  have hclean : sanitizeReply samplePython sampleCase "@@acme" "acme" = "@acme" := by
    decide +kernel
  refine ⟨by decide, ?_, hclean⟩
  intro h
  apply h.unmentioned
  rw [hclean]
  refine ⟨"acme".toList, List.forall₂_same.2 fun c _ => samplePython_ignoresCase.refl c, ?_⟩
  rw [show "@acme".toList = '@' :: "acme".toList by decide]

/-- A reply with one mention and one broadcast is sanitised. -/
theorem sanitize_reply_mention : Sanitized samplePython sampleCase "acme"
    (sanitizeReply samplePython sampleCase "Theo @ACME thì xong. <!channel>" "acme") := by
  rw [sanitize_reply_iff samplePython_ignoresCase (by decide)]
  rintro ⟨p, x, hin, -⟩
  have hcount := hin.sublist.count_le '@'
  have hone : "Theo @ACME thì xong. <!channel>".toList.count '@' = 1 := by
    decide +kernel
  rw [hone, List.count_cons_self, List.count_append, List.count_cons_self] at hcount
  omega

end ProjectManager
