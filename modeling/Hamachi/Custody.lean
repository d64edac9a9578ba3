import Mathlib.Data.Finset.Option
import Mathlib.Data.Finset.SDiff
import Mathlib.Data.List.Monad

namespace Hamachi

/-!
# Custody along a list of calls

Each call may use tokens, come into one and give one up.  A list of calls keeps
custody when every token is used and given up only while it is owned, and comes
in only while it is not.  What came in or was owned at the start is then either
still owned or was given up.
-/

variable {Call Token : Type}

/-- What a call does to the tokens of its caller. -/
structure Custody (Call Token : Type) where
  uses : Call → List Token
  gains : Call → Option Token
  gives : Call → Option Token

/-- How many of the calls concern a token. -/
def occurrences
    [DecidableEq Token]
    (concerns : Call → Option Token)
    (token : Token)
    (calls : List Call) : Nat :=
  calls.countP fun call => concerns call = some token

namespace Custody

variable
  [DecidableEq Token]
  (custody : Custody Call Token)

/-- A call touches owned tokens only, and brings in a new one. -/
structure Permits (owned : Finset Token) (call : Call) : Prop where
  uses : ∀ token ∈ custody.uses call, token ∈ owned
  gives : ∀ token ∈ custody.gives call, token ∈ owned
  gains : ∀ token ∈ custody.gains call, token ∉ owned

instance decidablePermits (owned : Finset Token) (call : Call) :
    Decidable (custody.Permits owned call) :=
  decidable_of_iff
    ((∀ token ∈ custody.uses call, token ∈ owned) ∧
      (∀ token ∈ custody.gives call, token ∈ owned) ∧
        ∀ token ∈ custody.gains call, token ∉ owned)
    ⟨fun ⟨uses, gives, gains⟩ => ⟨uses, gives, gains⟩,
      fun permits => ⟨permits.uses, permits.gives, permits.gains⟩⟩

/-- What is owned after a call. -/
def after (owned : Finset Token) (call : Call) : Option (Finset Token) :=
  if custody.Permits owned call then
    some ((owned \ (custody.gives call).toFinset) ∪
      (custody.gains call).toFinset)
  else
    none

/-- What is owned after a list of calls. -/
def afterAll
    (owned : Finset Token)
    (calls : List Call) : Option (Finset Token) :=
  calls.foldlM custody.after owned

/-- The calls keep custody and leave nothing owned. -/
def Settles (owned : Finset Token) (calls : List Call) : Prop :=
  custody.afterAll owned calls = some ∅

instance decidableSettles (owned : Finset Token) (calls : List Call) :
    Decidable (custody.Settles owned calls) :=
  inferInstanceAs (Decidable (_ = _))

variable
  {custody}
  {owned final : Finset Token}
  {call : Call}
  {calls : List Call}

/-- One call keeps the account of a token. -/
theorem after_account
    (follows : custody.after owned call = some final)
    (token : Token) :
    (if token ∈ owned then 1 else 0) +
        (if custody.gains call = some token then 1 else 0) =
      (if token ∈ final then 1 else 0) +
        if custody.gives call = some token then 1 else 0 := by
  unfold after at follows
  split at follows
  · rename_i permits
    cases follows
    have given : custody.gives call = some token → token ∈ owned :=
      permits.gives token
    have gained : custody.gains call = some token → token ∉ owned :=
      permits.gains token
    simp only [Finset.mem_union, Finset.mem_sdiff, Option.mem_toFinset,
      Option.mem_def]
    by_cases owns : token ∈ owned <;>
      by_cases gives : custody.gives call = some token <;>
        by_cases gains : custody.gains call = some token <;>
          simp_all
  · cases follows

/-- The calls keep the account of every token. -/
theorem afterAll_account
    (follows : custody.afterAll owned calls = some final)
    (token : Token) :
    (if token ∈ owned then 1 else 0) +
        occurrences custody.gains token calls =
      (if token ∈ final then 1 else 0) +
        occurrences custody.gives token calls := by
  induction calls generalizing owned with
  | nil =>
      cases follows
      rfl
  | cons call rest inductionHypothesis =>
      rw [afterAll, List.foldlM_cons] at follows
      obtain ⟨middle, first, later⟩ := Option.bind_eq_some_iff.mp follows
      have now := after_account first token
      have remaining := inductionHypothesis later
      simp only [occurrences, List.countP_cons, decide_eq_true_eq] at remaining ⊢
      omega

/-- A call that only uses tokens changes nothing. -/
theorem after_uses
    (gainsNone : custody.gains call = none)
    (givesNone : custody.gives call = none)
    (uses : ∀ token ∈ custody.uses call, token ∈ owned) :
    custody.after owned call = some owned := by
  have permits : custody.Permits owned call :=
    ⟨uses, by simp [givesNone], by simp [gainsNone]⟩
  simp [after, permits, gainsNone, givesNone]

/-- A call that brings in a token adds it. -/
theorem after_gains
    {token : Token}
    (gains : custody.gains call = some token)
    (givesNone : custody.gives call = none)
    (uses : ∀ token ∈ custody.uses call, token ∈ owned)
    (isNew : token ∉ owned) :
    custody.after owned call = some (insert token owned) := by
  have permits : custody.Permits owned call :=
    ⟨uses, by simp [givesNone], by simpa [gains] using isNew⟩
  simp [after, permits, gains, givesNone]

/-- A call that gives up a token removes it. -/
theorem after_gives
    {token : Token}
    (gainsNone : custody.gains call = none)
    (gives : custody.gives call = some token)
    (uses : ∀ token ∈ custody.uses call, token ∈ owned)
    (owns : token ∈ owned) :
    custody.after owned call = some (owned.erase token) := by
  have permits : custody.Permits owned call :=
    ⟨uses, by simpa [gives] using owns, by simp [gainsNone]⟩
  simp [after, permits, gives, gainsNone, Finset.sdiff_singleton_eq_erase]

/-- A call that gives up one of several tokens. -/
theorem after_gives_insert
    {token : Token}
    (gainsNone : custody.gains call = none)
    (gives : custody.gives call = some token)
    (uses : ∀ used ∈ custody.uses call, used ∈ insert token owned)
    (isOther : token ∉ owned) :
    custody.after (insert token owned) call = some owned := by
  have follows :=
    after_gives gainsNone gives uses (Finset.mem_insert_self token owned)
  rwa [Finset.erase_insert isOther] at follows

/-- A call that gives up the last token. -/
theorem after_gives_last
    {token : Token}
    (gainsNone : custody.gains call = none)
    (gives : custody.gives call = some token)
    (uses : ∀ used ∈ custody.uses call, used = token) :
    custody.after {token} call = some ∅ := by
  have follows :=
    after_gives gainsNone gives
      (fun used member => Finset.mem_singleton.mpr (uses used member))
      (Finset.mem_singleton_self token)
  rwa [Finset.erase_singleton] at follows

/-- One call and the rest. -/
theorem settles_cons
    (follows : custody.after owned call = some final) :
    custody.Settles owned (call :: calls) ↔ custody.Settles final calls := by
  rw [Settles, afterAll, List.foldlM_cons, follows]
  rfl

/-- Every token is given up as often as it was owned or came in. -/
theorem Settles.gives
    (settles : custody.Settles owned calls)
    (token : Token) :
    occurrences custody.gives token calls =
      (if token ∈ owned then 1 else 0) +
        occurrences custody.gains token calls := by
  have account := afterAll_account settles token
  rw [if_neg (Finset.notMem_empty token)] at account
  omega

end Custody

end Hamachi
