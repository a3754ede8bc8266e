import ProjectManager.Agent.OpsDialogue

/-!
# Cancelling a preview

A reply to a preview is cut into words as it was typed, and a cancel word is to win over every word that confirms.
Vietnamese letters have a composed and a decomposed form, and a combining mark is not one of the characters of a
word, so that a decomposed cancel word falls apart.  `cancel_wins_iff` says exactly which replies still cancel.
-/

namespace ProjectManager

open Process

variable {lib : OpsLibrary} {py : Python} {word message : String}

/-! ### Words of a reply -/

/-- A word of a text in lower case: a longest run of the characters of the pattern. -/
def WordOf (py : Python) (word text : String) : Prop :=
  word ≠ "" ∧
    Text.IsRunOf (fun c => !(py.isWord c || vietnameseLetters.contains c)) word.toList (py.lower text).toList

theorem mem_replyTokens_iff : word ∈ replyTokens py message ↔ WordOf py word message := by
  simp only [replyTokens, List.mem_map, List.mem_filter, Text.mem_splitOnP_iff]
  constructor
  · rintro ⟨cs, ⟨hrun, hne⟩, rfl⟩
    refine ⟨?_, by rwa [String.toList_ofList]⟩
    intro hempty
    obtain rfl : cs = [] := by simpa using hempty
    cases hne
  · rintro ⟨hne, hrun⟩
    refine ⟨word.toList, ⟨hrun, ?_⟩, String.ofList_toList⟩
    simpa using hne

/-- The text has a cancel word. -/
def SaysNo (py : Python) (text : String) : Prop :=
  ∃ word ∈ cancelWords, WordOf py word text

/-- The text has a word that confirms, or is a phrase that does. -/
def SaysYes (py : Python) (text : String) : Prop :=
  (∃ word ∈ confirmWordTokens, WordOf py word text) ∨ normReply py text ∈ confirmWords

theorem saysNo_iff_any : SaysNo py message ↔ ((replyTokens py message).any fun t => cancelWords.contains t) = true := by
  simp only [SaysNo, List.any_eq_true, List.contains_iff_mem, mem_replyTokens_iff]
  exact exists_congr fun word => and_comm

instance (py : Python) (text : String) : Decidable (SaysNo py text) :=
  decidable_of_iff _ saysNo_iff_any.symm

theorem saysYes_iff_any : SaysYes py message ↔
    (((replyTokens py message).any fun t => confirmWordTokens.contains t) ||
      confirmWords.contains (normReply py message)) = true := by
  simp only [SaysYes, Bool.or_eq_true, List.any_eq_true, List.contains_iff_mem, mem_replyTokens_iff]
  exact or_congr_left (exists_congr fun word => and_comm)

/-! ### What a reply comes to -/

theorem confirmDecision_cancel_iff : confirmDecision py message = .cancel ↔ SaysNo py message := by
  rw [saysNo_iff_any]
  unfold confirmDecision
  dsimp only
  split
  · rename_i hno
    exact iff_of_true rfl hno
  · rename_i hno
    refine iff_of_false ?_ hno
    split <;> simp

theorem confirmDecision_confirm_iff : confirmDecision py message = .confirm ↔ ¬ SaysNo py message ∧ SaysYes py message := by
  rw [saysNo_iff_any, saysYes_iff_any]
  unfold confirmDecision
  dsimp only
  split
  · rename_i hno
    exact iff_of_false (by simp) fun h => h.1 hno
  · rename_i hno
    split
    · rename_i hyes
      exact iff_of_true rfl ⟨hno, hyes⟩
    · rename_i hyes
      exact iff_of_false (by simp) fun h => hyes h.2

/-- The run of a command. -/
def OpsCall.IsRun : OpsCall → Prop
  | .run _ _ => True
  | _ => False

/-- A reply that does not confirm runs nothing. -/
theorem handleConfirm_not_run {catalogue : OpsCatalogue} {draft : OpsDraft} {key : String}
    (h : confirmDecision lib.py message ≠ .confirm) :
    (handleConfirm lib catalogue draft message key).Only (fun c => ¬ c.IsRun) fun _ => True := by
  unfold handleConfirm
  simp only [h, false_and, if_false]
  refine ⟨id, fun _ => ?_⟩
  dsimp only [Prog.ret_bind]
  split
  · exact ⟨id, fun _ => trivial⟩
  · exact trivial

/-! ### Replies in another form -/

/-- A cancel word of the composed reply keeps the reply from confirming, and from running anything. -/
structure CancelWins (lib : OpsLibrary) (nfc : String → String) (message : String) : Prop where
  decision : SaysNo lib.py (nfc message) → confirmDecision lib.py message ≠ .confirm
  runs : SaysNo lib.py (nfc message) → ∀ (catalogue : OpsCatalogue) (draft : OpsDraft) (key : String),
    (handleConfirm lib catalogue draft message key).Only (fun c => ¬ c.IsRun) fun _ => True

/-- Neither reply is taken as a cancellation and the other as a confirmation. -/
def Unopposed (py : Python) (message message' : String) : Prop :=
  ¬ (confirmDecision py message = .cancel ∧ confirmDecision py message' = .confirm) ∧
    ¬ (confirmDecision py message' = .cancel ∧ confirmDecision py message = .confirm)

/-- A cancel word wins exactly where the reply as it was typed has one too, or none that confirms. -/
theorem cancel_wins_iff (lib : OpsLibrary) (nfc : String → String) :
    (∀ message, CancelWins lib nfc message ↔
      (SaysNo lib.py (nfc message) → SaysNo lib.py message ∨ ¬ SaysYes lib.py message)) ∧
    ∀ message message', nfc message = nfc message' → (Unopposed lib.py message message' ↔
      (SaysNo lib.py message → SaysNo lib.py message' ∨ ¬ SaysYes lib.py message') ∧
      (SaysNo lib.py message' → SaysNo lib.py message ∨ ¬ SaysYes lib.py message)) := by
  have hconfirms : ∀ message, confirmDecision lib.py message ≠ .confirm ↔
      SaysNo lib.py message ∨ ¬ SaysYes lib.py message := by
    intro message
    rw [Ne, confirmDecision_confirm_iff, not_and_or, not_not]
  refine ⟨fun message => ⟨?_, ?_⟩, fun message message' _ => ?_⟩
  · intro h hno
    exact (hconfirms message).1 (h.decision hno)
  · intro h
    refine ⟨fun hno => (hconfirms message).2 (h hno), fun hno catalogue draft key => ?_⟩
    apply handleConfirm_not_run
    exact (hconfirms message).2 (h hno)
  · rw [← hconfirms message, ← hconfirms message', ← confirmDecision_cancel_iff, ← confirmDecision_cancel_iff]
    simp only [Unopposed, not_and, Ne]

/-- The canonical composition of an `o` with the circumflex after it. -/
def composeCircumflex : List Char → List Char
  | 'o' :: '\u0302' :: rest => 'ô' :: composeCircumflex rest
  | c :: rest => c :: composeCircumflex rest
  | [] => []

/-- The canonical composition of the samples. -/
def sampleNfc (text : String) : String :=
  String.ofList (composeCircumflex text.toList)

/-- The words of the samples: the circumflex alone is no letter. -/
theorem replyTokens_samples : replyTokens samplePython "không, ok" = ["không", "ok"] ∧
    replyTokens samplePython "kho\u0302ng" = ["kho", "ng"] ∧
    replyTokens samplePython "kho\u0302ng, ok" = ["kho", "ng", "ok"] := by
  decide +kernel

/-- A composed refusal wins over a word that confirms, and a refusal alone does in both forms. -/
theorem cancel_wins_composed : CancelWins sampleLibrary sampleNfc "không, ok" ∧
    Unopposed samplePython "không" "kho\u0302ng" := by
  obtain ⟨hcomposed, hdecomposed, -⟩ := replyTokens_samples
  have hno : SaysNo samplePython "không, ok" := by
    rw [saysNo_iff_any, hcomposed]
    decide
  have hbroken : ¬ SaysYes samplePython "kho\u0302ng" := by
    rw [saysYes_iff_any, hdecomposed]
    decide +kernel
  have hsilent : ¬ SaysNo samplePython "kho\u0302ng" := by
    rw [saysNo_iff_any, hdecomposed]
    decide
  have hsame : sampleNfc "không" = sampleNfc "kho\u0302ng" := by
    decide +kernel
  obtain ⟨hwins, hpairs⟩ := cancel_wins_iff sampleLibrary sampleNfc
  refine ⟨(hwins _).2 fun _ => .inl hno, (hpairs _ _ hsame).2 ⟨fun _ => .inr hbroken, fun hcancel => ?_⟩⟩
  exact absurd hcancel hsilent

/-- A decomposed refusal before a word that confirms is taken as a confirmation. -/
theorem decomposed_refusal_confirms : ¬ CancelWins sampleLibrary sampleNfc "kho\u0302ng, ok" ∧
    ¬ Unopposed samplePython "không, ok" "kho\u0302ng, ok" := by
  obtain ⟨hcomposed, -, hdecomposed⟩ := replyTokens_samples
  have hno : SaysNo samplePython "không, ok" := by
    rw [saysNo_iff_any, hcomposed]
    decide
  have hconfirm : confirmDecision samplePython "kho\u0302ng, ok" = .confirm := by
    unfold confirmDecision
    rw [hdecomposed]
    decide
  constructor
  · intro h
    have hnfc : sampleNfc "kho\u0302ng, ok" = "không, ok" := by
      decide +kernel
    exact h.decision (hnfc ▸ hno) hconfirm
  · intro h
    exact h.1 ⟨confirmDecision_cancel_iff.2 hno, hconfirm⟩

end ProjectManager
