import Mathlib.Data.List.Induction
import Mathlib.Data.List.Sort
import Peglib.ParseError

/-!
# The furthest failure, order-free

The error record is updated in three ways that clear, insert or ignore. What it
holds in the end depends only on which failures were recorded: the furthest of
the positions, and the items recorded there, in their own order.
-/

namespace Peglib.FurthestFailure

open Peglib.ParseError Peglib.ParseError.Errors

set_option autoImplicit false

section Order

theorem ExpectedKind.rank_injective {left right : ExpectedKind} (same : left.rank = right.rank) :
    left = right := by
  cases left <;> cases right <;> first | rfl | cases same

theorem less_iff {left right : ExpectedItem} :
    left.less right = true ↔
      left.kind.rank < right.kind.rank ∨ (left.kind = right.kind ∧ left.text < right.text) := by
  unfold ExpectedItem.less
  by_cases same : left.kind = right.kind
  · simp [same]
  · simp [same]

theorem less_irrefl (item : ExpectedItem) : ¬item.less item = true := by
  rw [less_iff]
  rintro (ranked | ⟨-, texts⟩)
  · exact Nat.lt_irrefl _ ranked
  · exact List.lt_irrefl _ texts

theorem less_trans {first second third : ExpectedItem} (left : first.less second = true)
    (right : second.less third = true) : first.less third = true := by
  rw [less_iff] at left right ⊢
  rcases left with ranked | ⟨kinds, texts⟩
  · rcases right with ranked' | ⟨kinds', -⟩
    · exact Or.inl (Nat.lt_trans ranked ranked')
    · exact Or.inl (kinds' ▸ ranked)
  · rcases right with ranked' | ⟨kinds', texts'⟩
    · exact Or.inl (kinds ▸ ranked')
    · exact Or.inr ⟨kinds.trans kinds', List.lt_trans texts texts'⟩

theorem less_total {left right : ExpectedItem} (notLess : ¬left.less right = true)
    (different : left ≠ right) : right.less left = true := by
  rw [less_iff] at notLess ⊢
  push Not at notLess
  rcases Nat.lt_or_eq_of_le notLess.1 with ranked | ranked
  · exact Or.inl ranked
  · have kinds : right.kind = left.kind := ExpectedKind.rank_injective ranked
    refine Or.inr ⟨kinds, ?_⟩
    have texts : right.text ≤ left.text := notLess.2 kinds.symm
    rcases List.le_iff_lt_or_eq.mp texts with less | same
    · exact less
    · exact absurd (by cases left; cases right; simp_all) different

theorem less_asymm {left right : ExpectedItem} (less : left.less right = true) :
    ¬right.less left = true :=
  fun less' => less_irrefl left (less_trans less less')

end Order

section Sets

/-- Strictly ascending, the invariant of the vector behind an `ExpectedSet`. -/
def Ascending (expected : ExpectedSet) : Prop :=
  expected.Pairwise fun left right => left.less right = true

theorem Ascending.nodup {expected : ExpectedSet} (ascending : Ascending expected) :
    expected.Nodup := by
  refine List.Pairwise.imp ?_ ascending
  rintro item _ less rfl
  exact less_irrefl item less

theorem mem_insert {item other : ExpectedItem} {expected : ExpectedSet} :
    other ∈ ExpectedSet.insert item expected ↔ other = item ∨ other ∈ expected := by
  induction expected with
  | nil => simp [ExpectedSet.insert]
  | cons first rest induction =>
      unfold ExpectedSet.insert
      split_ifs with less same
      · rw [List.mem_cons, induction, List.mem_cons]
        exact or_left_comm
      · rw [same]
        simp
      · simp

theorem Ascending.insert {item : ExpectedItem} {expected : ExpectedSet}
    (ascending : Ascending expected) : Ascending (ExpectedSet.insert item expected) := by
  induction expected with
  | nil => exact List.pairwise_singleton _ _
  | cons first rest induction =>
      have ⟨below, above⟩ := List.pairwise_cons.mp ascending
      unfold ExpectedSet.insert
      split_ifs with less same
      · refine List.pairwise_cons.mpr ⟨fun other member => ?_, induction above⟩
        rcases mem_insert.mp member with rfl | held
        · exact less
        · exact below other held
      · exact ascending
      · have smaller : item.less first = true := less_total less same
        refine List.pairwise_cons.mpr ⟨fun other member => ?_, ascending⟩
        rcases List.mem_cons.mp member with rfl | held
        · exact smaller
        · exact less_trans smaller (below other held)

theorem Ascending.unique {left right : ExpectedSet} (ascending : Ascending left)
    (ascending' : Ascending right) (same : ∀ item, item ∈ left ↔ item ∈ right) : left = right := by
  have permuted : left.Perm right :=
    (List.perm_ext_iff_of_nodup ascending.nodup ascending'.nodup).mpr same
  exact permuted.eq_of_pairwise
    (fun _ _ _ _ less less' => absurd less' (less_asymm less)) ascending ascending'

end Sets

/-- A call of `record_failure`, or of `record_failure_lazy` with its producer. -/
inductive Recording where
  | eager (pos : Nat) (item : ExpectedItem)
  | lazy (pos : Nat) (producer : Unit → ExpectedItem)

def Recording.pos : Recording → Nat
  | .eager pos _ => pos
  | .lazy pos _ => pos

def Recording.item : Recording → ExpectedItem
  | .eager _ item => item
  | .lazy _ producer => producer ()

def Recording.perform : Recording → Errors → Errors
  | .eager pos item, errors => errors.recordFailure pos item
  | .lazy pos producer, errors => errors.recordFailureLazy pos producer

def recordAll (calls : List Recording) (errors : Errors) : Errors :=
  calls.foldl (fun state call => call.perform state) errors

theorem perform_eq (call : Recording) (errors : Errors) :
    call.perform errors = errors.recordFailure call.pos call.item := by
  cases call <;> rfl

/-- What may happen to the error state of a context. -/
inductive ErrorStep where
  | failure (call : Recording)
  | take
  | diagnostic (entry : Diagnostic)

def ErrorStep.perform : ErrorStep → Errors → Errors
  | .failure call, errors => call.perform errors
  | .take, errors => errors.takeError.2
  | .diagnostic entry, errors => errors.recordDiagnostic entry

/-- The state of a context that was created and went through `steps`. -/
def stateAfter (steps : List ErrorStep) : Errors :=
  steps.foldl (fun errors step => step.perform errors) {}

section Invariant

structure Cleared (errors : Errors) : Prop where
  hasError : errors.hasError = false
  furthest : errors.furthestFailurePos = 0
  expected : errors.expected = []

/-- Where no failure is on record, nothing of an earlier one is left. -/
def Tidy (errors : Errors) : Prop := errors.hasError = false → Cleared errors

theorem Tidy.perform {errors : Errors} (tidy : Tidy errors) (step : ErrorStep) :
    Tidy (step.perform errors) := by
  cases step with
  | failure call =>
      intro clear
      rw [ErrorStep.perform, perform_eq, record_failure_has_error] at clear
      cases clear
  | take =>
      rw [ErrorStep.perform, takeError]
      split_ifs with recorded
      · exact fun _ => ⟨rfl, rfl, rfl⟩
      · exact tidy
  | diagnostic entry =>
      intro clear
      have cleared := tidy clear
      exact ⟨cleared.hasError, cleared.furthest, cleared.expected⟩

theorem stateAfter_tidy (steps : List ErrorStep) : Tidy (stateAfter steps) := by
  have kept : ∀ errors, Tidy errors →
      Tidy (steps.foldl (fun errors step => step.perform errors) errors) := by
    induction steps with
    | nil => exact fun _ tidy => tidy
    | cons step rest induction => exact fun _ tidy => induction _ (tidy.perform step)
  exact kept {} fun _ => ⟨rfl, rfl, rfl⟩

theorem take_cleared {errors : Errors} (tidy : Tidy errors) : Cleared errors.takeError.2 := by
  unfold takeError
  split_ifs with recorded
  · exact ⟨rfl, rfl, rfl⟩
  · exact tidy (Bool.eq_false_iff.mpr recorded)

/-- What `calls` amount to, in any order. -/
structure Holds (calls : List Recording) (errors : Errors) : Prop where
  hasError : errors.hasError = !calls.isEmpty
  furthest : ∀ call ∈ calls, call.pos ≤ errors.furthestFailurePos
  attained : calls ≠ [] → ∃ call ∈ calls, call.pos = errors.furthestFailurePos
  unset : calls = [] → errors.furthestFailurePos = 0
  ascending : Ascending errors.expected
  exactly : ∀ item, item ∈ errors.expected ↔
    ∃ call ∈ calls, call.pos = errors.furthestFailurePos ∧ call.item = item

theorem Cleared.holds {errors : Errors} (cleared : Cleared errors) : Holds [] errors where
  hasError := cleared.hasError
  furthest := nofun
  attained := fun some => absurd rfl some
  unset := fun _ => cleared.furthest
  ascending := cleared.expected ▸ List.Pairwise.nil
  exactly := fun item => by rw [cleared.expected]; simp

theorem Holds.first {errors : Errors} (holds : Holds [] errors) (call : Recording) :
    Holds [call] (errors.recordFailure call.pos call.item) := by
  have recorded : errors.hasError = false := holds.hasError
  have state : errors.recordFailure call.pos call.item =
      { errors with furthestFailurePos := call.pos, expected := [call.item], hasError := true } := by
    unfold recordFailure
    rw [recorded]
    rfl
  rw [state]
  refine ⟨rfl, ?_, ?_, nofun, List.pairwise_singleton _ _, ?_⟩
  · simp
  · simp
  · simp [eq_comm]

theorem Holds.record {calls : List Recording} {errors : Errors} (holds : Holds calls errors)
    (call : Recording) :
    Holds (calls ++ [call]) (errors.recordFailure call.pos call.item) := by
  by_cases none : calls = []
  · subst none
    exact holds.first call
  have recorded : errors.hasError = true := by
    rw [holds.hasError]
    cases calls with
    | nil => exact absurd rfl none
    | cons first rest => rfl
  obtain ⟨last, member, attained⟩ := holds.attained none
  have spread : ∀ other, other ∈ calls ++ [call] ↔ other ∈ calls ∨ other = call := by simp
  unfold recordFailure
  rw [recorded, Bool.not_true, Bool.false_or]
  split_ifs with further tied
  · have further : errors.furthestFailurePos < call.pos := of_decide_eq_true further
    refine ⟨by simp, ?_, fun _ => ⟨call, by simp, rfl⟩, by simp, List.pairwise_singleton _ _, ?_⟩
    · intro other member'
      rcases (spread other).mp member' with held | rfl
      · exact Nat.le_trans (holds.furthest other held) (Nat.le_of_lt further)
      · exact Nat.le_refl _
    · intro item
      constructor
      · intro held
        exact ⟨call, by simp, rfl, (List.mem_singleton.mp held).symm⟩
      · rintro ⟨other, member', here, rfl⟩
        rcases (spread other).mp member' with held | rfl
        · exact absurd (holds.furthest other held) (by dsimp only at here; omega)
        · exact List.mem_singleton.mpr rfl
  · refine ⟨by simp, ?_, fun _ => ⟨last, by simp [member], attained⟩, by simp,
      holds.ascending.insert, ?_⟩
    · intro other member'
      rcases (spread other).mp member' with held | rfl
      · exact holds.furthest other held
      · exact Nat.le_of_eq tied
    · intro item
      rw [mem_insert, holds.exactly item]
      constructor
      · rintro (rfl | ⟨other, held, here, found⟩)
        · exact ⟨call, by simp, tied, rfl⟩
        · exact ⟨other, by simp [held], here, found⟩
      · rintro ⟨other, member', here, found⟩
        rcases (spread other).mp member' with held | rfl
        · exact Or.inr ⟨other, held, here, found⟩
        · exact Or.inl found.symm
  · have earlier : call.pos < errors.furthestFailurePos := by
      have notFurther : ¬errors.furthestFailurePos < call.pos := of_decide_eq_false
        (Bool.eq_false_iff.mpr further)
      omega
    refine ⟨by simp [recorded], ?_, fun _ => ⟨last, by simp [member], attained⟩, by simp,
      holds.ascending, ?_⟩
    · intro other member'
      rcases (spread other).mp member' with held | rfl
      · exact holds.furthest other held
      · exact Nat.le_of_lt earlier
    · intro item
      rw [holds.exactly item]
      constructor
      · rintro ⟨other, held, here, found⟩
        exact ⟨other, by simp [held], here, found⟩
      · rintro ⟨other, member', here, found⟩
        rcases (spread other).mp member' with held | rfl
        · exact ⟨other, held, here, found⟩
        · exact absurd here (Nat.ne_of_lt earlier)

theorem recordAll_holds (calls : List Recording) {errors : Errors} (cleared : Cleared errors) :
    Holds calls (recordAll calls errors) := by
  induction calls using List.reverseRec with
  | nil => exact cleared.holds
  | append_singleton calls call induction =>
      have step : recordAll (calls ++ [call]) errors = call.perform (recordAll calls errors) := by
        simp [recordAll]
      rw [step, perform_eq]
      exact induction.record call

theorem recordAll_diagnostics (calls : List Recording) (errors : Errors) :
    (recordAll calls errors).diagnostics = errors.diagnostics := by
  induction calls generalizing errors with
  | nil => rfl
  | cons call rest induction =>
      have step : recordAll (call :: rest) errors = recordAll rest (call.perform errors) := rfl
      rw [step, induction, perform_eq]
      exact (record_failure_noticed errors call.pos call.item).diagnostics

/-- The state is a function of which calls there were. -/
theorem Holds.unique {calls calls' : List Recording} {errors errors' : Errors}
    (holds : Holds calls errors) (holds' : Holds calls' errors')
    (same : ∀ pos item, (∃ call ∈ calls, call.pos = pos ∧ call.item = item) ↔
      ∃ call ∈ calls', call.pos = pos ∧ call.item = item)
    (diagnostics : errors.diagnostics = errors'.diagnostics) : errors = errors' := by
  have given : ∀ call ∈ calls, ∃ call' ∈ calls', call'.pos = call.pos := by
    intro call member
    obtain ⟨call', member', there, -⟩ := (same call.pos call.item).mp ⟨call, member, rfl, rfl⟩
    exact ⟨call', member', there⟩
  have given' : ∀ call' ∈ calls', ∃ call ∈ calls, call.pos = call'.pos := by
    intro call' member'
    obtain ⟨call, member, there, -⟩ := (same call'.pos call'.item).mpr ⟨call', member', rfl, rfl⟩
    exact ⟨call, member, there⟩
  have empty : calls = [] ↔ calls' = [] := by
    constructor
    · rintro rfl
      exact List.eq_nil_iff_forall_not_mem.mpr fun call' member' => by simpa using given' call' member'
    · rintro rfl
      exact List.eq_nil_iff_forall_not_mem.mpr fun call member => by simpa using given call member
  have furthest : errors.furthestFailurePos = errors'.furthestFailurePos := by
    by_cases none : calls = []
    · rw [holds.unset none, holds'.unset (empty.mp none)]
    · obtain ⟨call, member, attained⟩ := holds.attained none
      obtain ⟨call', member', attained'⟩ := holds'.attained fun none' => none (empty.mpr none')
      obtain ⟨other', there', here'⟩ := given call member
      obtain ⟨other, there, here⟩ := given' call' member'
      have upper := holds'.furthest other' there'
      have lower := holds.furthest other there
      omega
  have expected : errors.expected = errors'.expected := by
    refine holds.ascending.unique holds'.ascending fun item => ?_
    rw [holds.exactly, holds'.exactly, furthest]
    exact same _ _
  have recorded : errors.hasError = errors'.hasError := by
    rw [holds.hasError, holds'.hasError]
    cases calls with
    | nil => rw [empty.mp rfl]
    | cons first rest =>
        cases calls' with
        | nil => cases empty.mpr rfl
        | cons first' rest' => rfl
  cases errors
  cases errors'
  simp_all

end Invariant

/-- Since the context was created, or since the last `take_error`. -/
def beginning (steps : List ErrorStep) : Prop := steps = [] ∨ ∃ before, steps = before ++ [.take]

theorem beginning_cleared {steps : List ErrorStep} (begins : beginning steps) :
    Cleared (stateAfter steps) := by
  rcases begins with rfl | ⟨before, rfl⟩
  · exact ⟨rfl, rfl, rfl⟩
  · have state : stateAfter (before ++ [.take]) = (stateAfter before).takeError.2 := by
      simp [stateAfter, ErrorStep.perform]
    rw [state]
    exact take_cleared (stateAfter_tidy before)

/-- From a context just created, or from one whose error was just taken, any
calls lead to the furthest of their positions and the items recorded there; any
order of them and either form leads to the same state, which `take_error`
returns and clears. -/
theorem furthest_state_order_free (steps : List ErrorStep) (begins : beginning steps)
    (calls : List Recording) :
    let last := recordAll calls (stateAfter steps)
    (∀ call ∈ calls, call.pos ≤ last.furthestFailurePos) ∧
      (calls ≠ [] → ∃ call ∈ calls, call.pos = last.furthestFailurePos) ∧
      last.expected.Pairwise (fun left right => left.less right = true) ∧
      last.expected.Nodup ∧
      (∀ item, item ∈ last.expected ↔
        ∃ call ∈ calls, call.pos = last.furthestFailurePos ∧ call.item = item) ∧
      (∀ calls' : List Recording,
        (calls'.map fun call => (call.pos, call.item)).Perm
            (calls.map fun call => (call.pos, call.item)) →
          recordAll calls' (stateAfter steps) = last) ∧
      last.takeError.1 =
        (if calls = [] then none else some ⟨last.furthestFailurePos, last.expected⟩) ∧
      Cleared last.takeError.2 := by
  intro last
  have cleared := beginning_cleared begins
  have holds : Holds calls last := recordAll_holds calls cleared
  refine ⟨holds.furthest, holds.attained, holds.ascending, holds.ascending.nodup, holds.exactly,
    ?_, ?_, ?_⟩
  · intro calls' permuted
    refine (recordAll_holds calls' cleared).unique holds (fun pos item => ?_) ?_
    · have pairs : ∀ list : List Recording, (∃ call ∈ list, call.pos = pos ∧ call.item = item) ↔
          (pos, item) ∈ list.map fun call => (call.pos, call.item) := by simp
      rw [pairs, pairs]
      exact permuted.mem_iff
    · rw [recordAll_diagnostics, recordAll_diagnostics]
  · have recorded := holds.hasError
    cases calls with
    | nil => rw [takeError, recorded]; rfl
    | cons first rest => rw [takeError, recorded]; rfl
  · refine take_cleared fun clear => ?_
    have recorded := holds.hasError
    cases calls with
    | nil => exact cleared
    | cons first rest => rw [recorded] at clear; cases clear

/-- Two failures after an error was taken, in either order and form. -/
theorem furthest_of_two :
    let steps : List ErrorStep := [.failure (.eager 9 ⟨.literal, ascii "z"⟩), .take]
    recordAll [.lazy 3 fun _ => ⟨.literal, ascii "b"⟩, .eager 3 ⟨.ruleName, ascii "a"⟩]
        (stateAfter steps) =
      recordAll [.eager 3 ⟨.ruleName, ascii "a"⟩, .eager 3 ⟨.literal, ascii "b"⟩]
        (stateAfter steps) := by
  intro steps
  have begins : beginning steps := Or.inr ⟨[.failure (.eager 9 ⟨.literal, ascii "z"⟩)], rfl⟩
  exact (furthest_state_order_free steps begins _).2.2.2.2.2.1 _ (List.Perm.swap _ _ _)

end Peglib.FurthestFailure
