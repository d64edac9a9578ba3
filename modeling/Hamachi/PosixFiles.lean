import Mathlib.Data.List.Basic
import Mathlib.Logic.Function.Basic

namespace Hamachi

/-!
# Files that are opened and written

What `open` and a sequence of `write` calls on its descriptor leave of the
files.  The flags appear by their meaning, so that systems that number them
differently can be compared.
-/

/-- What a caller of `open` asks for. -/
structure OpenIntent where
  reads : Bool
  writes : Bool
  creates : Bool
  excludes : Bool
  truncates : Bool
  appends : Bool
  deriving DecidableEq

/-- The contents of the files and what the caller may do with them. -/
structure Files (Path Byte : Type) where
  contents : Path → Option (List Byte)
  mayRead : Path → Bool
  mayWrite : Path → Bool
  mayCreate : Path → Bool

namespace OpenIntent

variable {Byte : Type}

/-- The same request without `O_EXCL`, `O_TRUNC` and `O_APPEND`. -/
def plain (intent : OpenIntent) : OpenIntent :=
  { intent with
    excludes := false
    truncates := false
    appends := false }

/-- The bytes that the descriptor accepts. -/
def accepted
    (intent : OpenIntent)
    (chunks : List (List Byte)) : List Byte :=
  if intent.writes then chunks.flatten else []

/-- What a file that held `start` holds after `written`. -/
def result
    (intent : OpenIntent)
    (start written : List Byte) : List Byte :=
  if intent.appends then
    start ++ written
  else
    written ++ start.drop written.length

end OpenIntent

namespace Files

variable {Path Path' Byte : Type} [DecidableEq Path] [DecidableEq Path']

/-- Replace the contents of a file. -/
def put
    (files : Files Path Byte)
    (path : Path)
    (bytes : List Byte) : Files Path Byte :=
  { files with
    contents := Function.update files.contents path (some bytes) }

/-- An existing file may be opened; truncating it is writing. -/
def permits
    (files : Files Path Byte)
    (intent : OpenIntent)
    (path : Path) : Prop :=
  (intent.reads → files.mayRead path) ∧
    (intent.writes ∨ intent.truncates → files.mayWrite path)

instance
    (files : Files Path Byte)
    (intent : OpenIntent)
    (path : Path) :
    Decidable (files.permits intent path) :=
  inferInstanceAs (Decidable (_ ∧ _))

/-- `open`: the files after it, unless it is refused. -/
def opened
    (files : Files Path Byte)
    (intent : OpenIntent)
    (path : Path) : Option (Files Path Byte) :=
  match files.contents path with
  | some _ =>
      if intent.creates ∧ intent.excludes then
        none
      else if files.permits intent path then
        some (if intent.truncates then files.put path [] else files)
      else
        none
  | none =>
      if intent.creates ∧ files.mayCreate path then
        some (files.put path [])
      else
        none

/-- `write` on a descriptor at an offset, which is never beyond the end of a
file that nobody else truncates. -/
def write
    (intent : OpenIntent)
    (path : Path)
    (state : Files Path Byte × Nat)
    (chunk : List Byte) : Files Path Byte × Nat :=
  match intent.writes, state.1.contents path with
  | true, some old =>
      if intent.appends then
        (state.1.put path (old ++ chunk), old.length + chunk.length)
      else
        (state.1.put path (old.take state.2 ++ chunk ++
            old.drop (state.2 + chunk.length)),
          state.2 + chunk.length)
  | _, _ => state

/-- `open` and then `write` for each chunk: whether the file was opened, and
the files at the end. -/
def session
    (files : Files Path Byte)
    (intent : OpenIntent)
    (path : Path)
    (chunks : List (List Byte)) : Bool × Files Path Byte :=
  match files.opened intent path with
  | none => (false, files)
  | some files => (true, (chunks.foldl (write intent path) (files, 0)).1)

/-- The files that stand behind other names. -/
def along
    (files : Files Path Byte)
    (rename : Path' → Path) : Files Path' Byte where
  contents := files.contents ∘ rename
  mayRead := files.mayRead ∘ rename
  mayWrite := files.mayWrite ∘ rename
  mayCreate := files.mayCreate ∘ rename

variable
  {files : Files Path Byte}
  {intent : OpenIntent}
  {path : Path}
  {bytes : List Byte}

@[simp] theorem contents_put (files : Files Path Byte) (path : Path)
    (bytes : List Byte) :
    (files.put path bytes).contents path = some bytes :=
  Function.update_self ..

@[simp] theorem put_put (files : Files Path Byte) (path : Path)
    (first second : List Byte) :
    (files.put path first).put path second = files.put path second := by
  simp [put]

/-- Storing what a file holds changes nothing. -/
theorem put_contents (holds : files.contents path = some bytes) :
    files.put path bytes = files := by
  unfold put
  rw [← holds, Function.update_eq_self]

theorem put_inj {first second : List Byte} :
    files.put path first = files.put path second ↔ first = second := by
  constructor
  · intro same
    have sameContents :=
      congrArg (fun files : Files Path Byte => files.contents path) same
    simpa using sameContents
  · rintro rfl
    rfl

/-- Appending writes add up. -/
theorem foldl_write_appends
    (appends : intent.appends = true)
    (writes : intent.writes = true)
    (holds : files.contents path = some bytes)
    (offset : Nat)
    (chunks : List (List Byte)) :
    (chunks.foldl (write intent path) (files, offset)).1 =
      files.put path (bytes ++ chunks.flatten) := by
  induction chunks generalizing files bytes offset with
  | nil =>
      rw [List.flatten_nil, List.append_nil, put_contents holds]
      rfl
  | cons chunk rest inductionHypothesis =>
      have steps :
          write intent path (files, offset) chunk =
            (files.put path (bytes ++ chunk),
              bytes.length + chunk.length) := by
        simp [write, writes, holds, appends]
      rw [List.foldl_cons, steps, inductionHypothesis (contents_put ..),
        put_put, List.flatten_cons, List.append_assoc]

/-- Overwriting writes are one write of all chunks. -/
theorem foldl_write_overwrites
    (overwrites : intent.appends = false)
    (writes : intent.writes = true)
    (holds : files.contents path = some bytes)
    {offset : Nat}
    (inside : offset ≤ bytes.length)
    (chunks : List (List Byte)) :
    (chunks.foldl (write intent path) (files, offset)).1 =
      files.put path
        (bytes.take offset ++ chunks.flatten ++
          bytes.drop (offset + chunks.flatten.length)) := by
  induction chunks generalizing files bytes offset with
  | nil =>
      rw [List.flatten_nil, List.append_nil, List.length_nil, Nat.add_zero,
        List.take_append_drop, put_contents holds]
      rfl
  | cons chunk rest inductionHypothesis =>
      have steps :
          write intent path (files, offset) chunk =
            (files.put path (bytes.take offset ++ chunk ++
                bytes.drop (offset + chunk.length)),
              offset + chunk.length) := by
        simp [write, writes, holds, overwrites]
      have front :
          (bytes.take offset ++ chunk).length = offset + chunk.length := by
        rw [List.length_append, List.length_take, Nat.min_eq_left inside]
      rw [List.foldl_cons, steps,
        inductionHypothesis (contents_put ..)
          (by rw [List.length_append, front]; omega),
        put_put, List.take_left' front, List.flatten_cons,
        List.length_append, ← Nat.add_assoc, ← front, List.drop_append,
        List.drop_eq_nil_of_le (by omega), List.nil_append,
        Nat.add_sub_cancel_left, List.drop_drop]
      simp only [List.append_assoc]

/-- A descriptor that does not write changes nothing. -/
theorem foldl_write_readOnly
    (readOnly : intent.writes = false)
    (state : Files Path Byte × Nat)
    (chunks : List (List Byte)) :
    chunks.foldl (write intent path) state = state := by
  induction chunks with
  | nil => rfl
  | cons chunk rest inductionHypothesis =>
      have steps : write intent path state chunk = state := by
        simp [write, readOnly]
      rw [List.foldl_cons, steps, inductionHypothesis]

/-- What a session leaves of a file that was opened. -/
theorem session_of_opened
    {start : Files Path Byte}
    (opens : files.opened intent path = some start)
    (holds : start.contents path = some bytes)
    (chunks : List (List Byte)) :
    files.session intent path chunks =
      (true, start.put path
        (intent.result bytes (intent.accepted chunks))) := by
  unfold session
  rw [opens]
  simp only [Prod.mk.injEq, true_and]
  unfold OpenIntent.accepted OpenIntent.result
  cases writes : intent.writes with
  | false =>
      rw [foldl_write_readOnly writes]
      simp [put_contents holds]
  | true =>
      cases appends : intent.appends with
      | true =>
          rw [foldl_write_appends appends writes holds]
          simp
      | false =>
          rw [foldl_write_overwrites appends writes holds (Nat.zero_le _)]
          simp

theorem session_of_refused
    (refuses : files.opened intent path = none)
    (chunks : List (List Byte)) :
    files.session intent path chunks = (false, files) := by
  unfold session
  rw [refuses]

/-- A session that creates a file leaves what it wrote. -/
theorem session_absent
    (absent : files.contents path = none)
    (chunks : List (List Byte)) :
    files.session intent path chunks =
      if intent.creates ∧ files.mayCreate path then
        (true, files.put path (intent.accepted chunks))
      else
        (false, files) := by
  have opens :
      files.opened intent path =
        if intent.creates ∧ files.mayCreate path then
          some (files.put path [])
        else
          none := by
    unfold opened
    rw [absent]
  split
  · rename_i creates
    rw [if_pos creates] at opens
    rw [session_of_opened opens (contents_put ..), put_put]
    unfold OpenIntent.result
    split <;> simp
  · rename_i refused
    rw [if_neg refused] at opens
    exact session_of_refused opens chunks

/-- A session on an existing file. -/
theorem session_existing
    {old : List Byte}
    (exist : files.contents path = some old)
    (chunks : List (List Byte)) :
    files.session intent path chunks =
      if intent.creates ∧ intent.excludes ∨
          ¬ files.permits intent path then
        (false, files)
      else
        (true, files.put path
          (intent.result (if intent.truncates then [] else old)
            (intent.accepted chunks))) := by
  have opens :
      files.opened intent path =
        if intent.creates ∧ intent.excludes then
          none
        else if files.permits intent path then
          some (if intent.truncates then files.put path [] else files)
        else
          none := by
    unfold opened
    rw [exist]
  split
  · rename_i refused
    refine session_of_refused ?_ chunks
    rw [opens]
    rcases refused with excluded | forbidden
    · rw [if_pos excluded]
    · rw [if_neg forbidden, ite_self]
  · rename_i notRefused
    obtain ⟨notExcluded, permitted⟩ := not_or.mp notRefused
    rw [if_neg notExcluded, if_pos (not_not.mp permitted)] at opens
    cases truncates : intent.truncates with
    | true =>
        rw [truncates, if_pos rfl] at opens
        rw [session_of_opened opens (contents_put ..), put_put, if_pos rfl]
    | false =>
        rw [truncates, if_neg Bool.false_ne_true] at opens
        rw [session_of_opened opens exist, if_neg Bool.false_ne_true]

/-- Overwriting is appending only when one side is empty. -/
theorem overwrite_eq_append_iff {old written : List Byte} :
    written ++ old.drop written.length = old ++ written ↔
      old = [] ∨ written = [] := by
  constructor
  · intro same
    have sameLength := congrArg List.length same
    rw [List.length_append, List.length_append, List.length_drop]
      at sameLength
    rw [← List.length_eq_zero_iff, ← List.length_eq_zero_iff]
    omega
  · rintro (rfl | rfl) <;> simp

/-- What makes `O_EXCL`, `O_TRUNC` and `O_APPEND` immaterial: there is no file
that could be opened, or the writes cover it, or there is nothing to
append. -/
def Indifferent
    (files : Files Path Byte)
    (intent : OpenIntent)
    (path : Path)
    (chunks : List (List Byte)) : Prop :=
  ∀ old,
    files.contents path = some old →
    files.permits intent.plain path →
      ¬ (intent.creates ∧ intent.excludes) ∧
        (intent.truncates →
          files.mayWrite path ∧
            old.length ≤ (intent.accepted chunks).length) ∧
        (intent.appends ∧ ¬ intent.truncates →
          old = [] ∨ intent.accepted chunks = [])

/-- What makes the session leave what writing `reached` without the three flags
leaves, when a part of what is written gets lost: the file holds what is
missing. -/
def Tolerates
    (files : Files Path Byte)
    (intent : OpenIntent)
    (path : Path)
    (reached chunks : List (List Byte)) : Prop :=
  (files.contents path = none →
    intent.creates ∧ files.mayCreate path →
      intent.accepted chunks = []) ∧
    ∀ old,
      files.contents path = some old →
      files.permits intent.plain path →
        ¬ (intent.creates ∧ intent.excludes) ∧
          (intent.truncates →
            files.mayWrite path ∧
              intent.accepted chunks =
                intent.accepted reached ++
                  old.drop (intent.accepted reached).length) ∧
          (¬ intent.truncates →
            if intent.appends then
              intent.accepted chunks = []
            else
              intent.accepted chunks <+:
                intent.accepted reached ++
                  old.drop (intent.accepted reached).length)

/-- Two sessions of which the first writes without the three flags. -/
def Agree
    (files : Files Path Byte)
    (intent : OpenIntent)
    (path : Path)
    (reached chunks : List (List Byte)) : Prop :=
  (files.contents path = none →
    intent.creates ∧ files.mayCreate path →
      intent.accepted reached = intent.accepted chunks) ∧
    ∀ old,
      files.contents path = some old →
      files.permits intent.plain path →
        ¬ (intent.creates ∧ intent.excludes) ∧
          (intent.truncates → files.mayWrite path) ∧
          intent.accepted reached ++
              old.drop (intent.accepted reached).length =
            intent.result (if intent.truncates then [] else old)
              (intent.accepted chunks)

omit [DecidableEq Path] in
/-- Truncating asks for more than a plain request. -/
theorem permits_iff_plain :
    files.permits intent path ↔
      files.permits intent.plain path ∧
        (intent.truncates → files.mayWrite path) := by
  unfold permits OpenIntent.plain
  constructor
  · rintro ⟨readable, writable⟩
    refine ⟨⟨readable, fun asks => writable (.inl ?_)⟩,
      fun truncates => writable (.inr truncates)⟩
    exact asks.resolve_right Bool.false_ne_true
  · rintro ⟨⟨readable, writable⟩, truncatable⟩
    refine ⟨readable, fun asks => ?_⟩
    rcases asks with writes | truncates
    · exact writable (.inl writes)
    · exact truncatable truncates

/-- The files after a session that was not refused agree exactly when each flag
changed nothing. -/
theorem result_eq_iff {old written : List Byte} :
    written ++ old.drop written.length =
        intent.result (if intent.truncates then [] else old) written ↔
      (intent.truncates → old.length ≤ written.length) ∧
        (intent.appends ∧ ¬ intent.truncates → old = [] ∨ written = []) := by
  unfold OpenIntent.result
  cases truncates : intent.truncates with
  | true => simp
  | false =>
      cases appends : intent.appends with
      | true => simp [overwrite_eq_append_iff]
      | false => simp

/-- Fewer bytes overwrite the start of a file as more bytes would exactly when
the file holds those that are missing. -/
theorem overwrite_eq_iff_prefix
    {old passed written : List Byte}
    (shorter : passed.length ≤ written.length) :
    passed ++ old.drop passed.length =
        written ++ old.drop written.length ↔
      written <+: passed ++ old.drop passed.length := by
  constructor
  · intro same
    exact ⟨_, same.symm⟩
  · rintro ⟨rest, isWhole⟩
    have isRest : rest = old.drop written.length := by
      have dropped := congrArg (List.drop written.length) isWhole
      rw [List.drop_left, List.drop_append, List.drop_eq_nil_of_le shorter,
        List.nil_append, List.drop_drop, Nat.add_sub_cancel' shorter]
        at dropped
      exact dropped
    rw [← isWhole, isRest]

/-- Fewer bytes leave what a session that was not refused leaves exactly when
the file holds those that are missing. -/
theorem eq_result_iff
    {old passed written : List Byte}
    (shorter :
      passed.length < written.length ∨ passed = [] ∧ written = []) :
    passed ++ old.drop passed.length =
        intent.result (if intent.truncates then [] else old) written ↔
      (intent.truncates →
          written = passed ++ old.drop passed.length) ∧
        (¬ intent.truncates →
          if intent.appends then
            written = []
          else
            written <+: passed ++ old.drop passed.length) := by
  unfold OpenIntent.result
  cases truncates : intent.truncates with
  | true =>
      simp only [↓reduceIte, List.nil_append, List.drop_nil,
        List.append_nil, ite_self, forall_const, not_true_eq_false,
        IsEmpty.forall_iff, and_true]
      exact eq_comm
  | false =>
      cases appends : intent.appends with
      | true =>
          simp only [Bool.false_eq_true, ↓reduceIte, IsEmpty.forall_iff,
            not_false_eq_true, forall_const, true_and]
          constructor
          · intro same
            have sameLength := congrArg List.length same
            simp only [List.length_append, List.length_drop] at sameLength
            rcases shorter with less | ⟨_, isEmpty⟩
            · omega
            · exact isEmpty
          · rintro rfl
            rcases shorter with less | ⟨rfl, _⟩
            · exact absurd less (Nat.not_lt_zero _)
            · simp
      | false =>
          have notLonger : passed.length ≤ written.length := by
            rcases shorter with less | ⟨rfl, rfl⟩
            · exact Nat.le_of_lt less
            · exact Nat.le_refl _
          simpa using overwrite_eq_iff_prefix notLonger

/-- A session without the three flags overwrites the start of a file. -/
theorem session_plain
    {old : List Byte}
    (exist : files.contents path = some old)
    (permitted : files.permits intent.plain path)
    (chunks : List (List Byte)) :
    files.session intent.plain path chunks =
      (true, files.put path (intent.accepted chunks ++
        old.drop (intent.accepted chunks).length)) := by
  have neverExcluded : ¬ (intent.plain.creates ∧ intent.plain.excludes) :=
    fun both => Bool.false_ne_true both.2
  rw [session_existing exist,
    if_neg (not_or.mpr ⟨neverExcluded, not_not.mpr permitted⟩)]
  rfl

/-- A session on a file that may be opened without the three flags. -/
theorem session_of_permits_plain
    {old : List Byte}
    (exist : files.contents path = some old)
    (permitted : files.permits intent.plain path)
    (chunks : List (List Byte)) :
    files.session intent path chunks =
      if ¬ (intent.creates ∧ intent.excludes) ∧
          (intent.truncates → files.mayWrite path) then
        (true, files.put path
          (intent.result (if intent.truncates then [] else old)
            (intent.accepted chunks)))
      else
        (false, files) := by
  rw [session_existing exist]
  by_cases opens :
      ¬ (intent.creates ∧ intent.excludes) ∧
        (intent.truncates → files.mayWrite path)
  · have permits : files.permits intent path :=
      permits_iff_plain.mpr ⟨permitted, opens.2⟩
    rw [if_pos opens,
      if_neg (not_or.mpr ⟨opens.1, not_not.mpr permits⟩)]
  · rw [if_neg opens, if_pos]
    by_contra notRefused
    obtain ⟨notExcluded, permits⟩ := not_or.mp notRefused
    exact opens
      ⟨notExcluded, (permits_iff_plain.mp (not_not.mp permits)).2⟩

/-- A session without the three flags and another session with them. -/
theorem session_plain_eq_iff (reached chunks : List (List Byte)) :
    files.session intent.plain path reached =
        files.session intent path chunks ↔
      files.Agree intent path reached chunks := by
  unfold Agree
  cases contents : files.contents path with
  | none =>
      rw [session_absent contents, session_absent contents]
      change (if intent.creates ∧ files.mayCreate path then
        (true, files.put path (intent.accepted reached)) else _) = _ ↔ _
      split
      · rename_i creates
        rw [Prod.mk.injEq, put_inj]
        constructor
        · rintro ⟨_, same⟩
          exact ⟨fun _ _ => same, fun _ exist => by cases exist⟩
        · rintro ⟨same, _⟩
          exact ⟨rfl, same rfl creates⟩
      · rename_i refused
        exact ⟨fun _ =>
          ⟨fun _ creates => absurd creates refused,
            fun _ exist => by cases exist⟩, fun _ => rfl⟩
  | some old =>
      by_cases permitted : files.permits intent.plain path
      · rw [session_plain contents permitted,
          session_of_permits_plain contents permitted]
        by_cases opens :
            ¬ (intent.creates ∧ intent.excludes) ∧
              (intent.truncates → files.mayWrite path)
        · rw [if_pos opens, Prod.mk.injEq, put_inj]
          constructor
          · rintro ⟨_, same⟩
            refine ⟨fun absent => absurd absent (Option.some_ne_none _), ?_⟩
            rintro other ⟨⟩ _
            exact ⟨opens.1, opens.2, same⟩
          · rintro ⟨_, agrees⟩
            exact ⟨rfl, (agrees old rfl permitted).2.2⟩
        · rw [if_neg opens]
          constructor
          · intro same
            cases congrArg Prod.fst same
          · rintro ⟨_, agrees⟩
            obtain ⟨notExcluded, covers, _⟩ := agrees old rfl permitted
            exact absurd ⟨notExcluded, covers⟩ opens
      · have forbidden : ¬ files.permits intent path :=
          fun permits => permitted (permits_iff_plain.mp permits).1
        rw [session_existing contents, session_existing contents,
          if_pos (.inr permitted), if_pos (.inr forbidden)]
        refine ⟨fun _ => ⟨fun absent => ?_, fun _ _ permits => ?_⟩,
          fun _ => rfl⟩
        · cases absent
        · exact absurd permits permitted

/-- A session without the three flags leaves what the session with them leaves
exactly when the flags are immaterial. -/
theorem session_plain_iff (chunks : List (List Byte)) :
    files.session intent.plain path chunks =
        files.session intent path chunks ↔
      files.Indifferent intent path chunks := by
  rw [session_plain_eq_iff]
  unfold Agree Indifferent
  simp only [result_eq_iff]
  constructor
  · rintro ⟨_, agrees⟩ old exist permitted
    obtain ⟨notExcluded, writable, covers, appends⟩ :=
      agrees old exist permitted
    exact ⟨notExcluded,
      fun truncates => ⟨writable truncates, covers truncates⟩, appends⟩
  · intro indifferent
    refine ⟨fun _ _ => trivial, fun old exist permitted => ?_⟩
    obtain ⟨notExcluded, covers, appends⟩ := indifferent old exist permitted
    exact ⟨notExcluded, fun truncates => (covers truncates).1,
      fun truncates => (covers truncates).2, appends⟩

/-- Writing less without the three flags leaves what a session leaves exactly
when the flags and what gets lost are immaterial. -/
theorem session_plain_shorter_iff
    {reached chunks : List (List Byte)}
    (shorter :
      (intent.accepted reached).length < (intent.accepted chunks).length ∨
        intent.accepted reached = [] ∧ intent.accepted chunks = []) :
    files.session intent.plain path reached =
        files.session intent path chunks ↔
      files.Tolerates intent path reached chunks := by
  have sameOrNothing :
      intent.accepted reached = intent.accepted chunks ↔
        intent.accepted chunks = [] := by
    rcases shorter with less | ⟨nothing, isEmpty⟩
    · constructor
      · intro same
        rw [same] at less
        exact absurd less (Nat.lt_irrefl _)
      · intro isEmpty
        rw [isEmpty] at less
        exact absurd less (Nat.not_lt_zero _)
    · rw [nothing, isEmpty]
  rw [session_plain_eq_iff]
  unfold Agree Tolerates
  simp only [sameOrNothing, eq_result_iff shorter]
  refine and_congr_right fun _ => ?_
  constructor
  · intro agrees old exist permitted
    obtain ⟨notExcluded, writable, covers, keeps⟩ :=
      agrees old exist permitted
    exact ⟨notExcluded,
      fun truncates => ⟨writable truncates, covers truncates⟩, keeps⟩
  · intro tolerates old exist permitted
    obtain ⟨notExcluded, covers, keeps⟩ := tolerates old exist permitted
    exact ⟨notExcluded, fun truncates => (covers truncates).1,
      fun truncates => (covers truncates).2, keeps⟩

section Rename

variable
  {rename : Path' → Path}
  {path' : Path'}

theorem along_put
    (injective : Function.Injective rename)
    (files : Files Path Byte)
    (path' : Path')
    (bytes : List Byte) :
    (files.put (rename path') bytes).along rename =
      (files.along rename).put path' bytes := by
  unfold along put
  rw [Function.update_comp_eq_of_injective _ injective]

/-- A session under another name is the session on the renamed files. -/
theorem session_along
    (injective : Function.Injective rename)
    (files : Files Path Byte)
    (intent : OpenIntent)
    (path' : Path')
    (chunks : List (List Byte)) :
    (files.along rename).session intent path' chunks =
      ((files.session intent (rename path') chunks).1,
        (files.session intent (rename path') chunks).2.along rename) := by
  cases contents : files.contents (rename path') with
  | none =>
      rw [session_absent contents,
        session_absent (show (files.along rename).contents path' = none from
          contents),
        ← along_put injective]
      change (if intent.creates ∧ files.mayCreate (rename path') then _
        else _) = _
      split <;> rfl
  | some old =>
      rw [session_existing contents,
        session_existing
          (show (files.along rename).contents path' = some old from
            contents),
        ← along_put injective]
      change (if intent.creates ∧ intent.excludes ∨
        ¬ files.permits intent (rename path') then _ else _) = _
      split <;> rfl

end Rename

end Files

end Hamachi
