import Hamachi.Lookup

namespace Hamachi

/-!
# Exactness of the column-by-column search

Each iteration of `lookup_in` narrows a window of rows by one column.  What the
search still has to compare are the suffixes of the names from that column on;
it is exact whenever the suffixes that agree with the sought one so far have
their next characters in order.
-/

/-- What is left of row `m` from column `idx` on. -/
def suffixAt
    (table : List SymbolDesc)
    (idx : Nat)
    (m : Int) :
    List Char :=
  match table[m.toNat]? with
  | none => []
  | some row => row.name.chars.drop idx

/-- The next character of a suffix, the terminator included. -/
def nextChar (suffix : List Char) : Char :=
  suffix.headD nul

/-- A window of rows whose names reach column `idx`. -/
structure Window
    (table : List SymbolDesc)
    (idx : Nat)
    (start stop : Int) : Prop where
  nonnegative : 0 ≤ start
  ordered : start ≤ stop
  inside : stop ≤ table.length
  reaches :
    ∀ m, start ≤ m → m < stop →
      idx ≤ (suffixAt table 0 m).length

/-- Rows that agree with `sought` on some depth are in order one column on. -/
def SortedToward
    (table : List SymbolDesc)
    (idx : Nat)
    (start stop : Int)
    (sought : List Char) : Prop :=
  ∀ depth, depth ≤ sought.length →
    ∀ first second, start ≤ first → first < second → second < stop →
      (suffixAt table idx first).take depth = sought.take depth →
      (suffixAt table idx second).take depth = sought.take depth →
      nextChar (suffixAt table (idx + depth) first) ≤
        nextChar (suffixAt table (idx + depth) second)

/-- The right answer of a search for `sought` in a window. -/
def Finds
    (table : List SymbolDesc)
    (idx : Nat)
    (start stop : Int)
    (sought : List Char) :
    Option Int → Prop
  | none =>
      ∀ m, start ≤ m → m < stop → suffixAt table idx m ≠ sought
  | some m =>
      start ≤ m ∧ m < stop ∧ suffixAt table idx m = sought

theorem suffixAt_drop
    (table : List SymbolDesc)
    (idx depth : Nat)
    (m : Int) :
    (suffixAt table idx m).drop depth = suffixAt table (idx + depth) m := by
  unfold suffixAt
  cases table[m.toNat]? with
  | none =>
      exact List.drop_nil
  | some row =>
      exact List.drop_drop

/-- A suffix is its next character followed by the next suffix. -/
theorem suffixAt_eq_cons
    {table : List SymbolDesc}
    {idx : Nat}
    {m : Int}
    {char : Char}
    {rest : List Char} :
    suffixAt table idx m = char :: rest ↔
      suffixAt table idx m ≠ [] ∧
        nextChar (suffixAt table idx m) = char ∧
        suffixAt table (idx + 1) m = rest := by
  rw [← suffixAt_drop table idx 1 m]
  cases suffixAt table idx m with
  | nil =>
      simp
  | cons head tail =>
      simp [nextChar]

/-- Characters of a name lie above the terminator. -/
theorem nextChar_eq_nul
    {table : List SymbolDesc}
    {idx : Nat}
    {m : Int} :
    nextChar (suffixAt table idx m) = nul ↔ suffixAt table idx m = [] := by
  constructor
  · intro isNul
    cases shape : suffixAt table idx m with
    | nil =>
        rfl
    | cons head tail =>
        rw [shape] at isNul
        unfold suffixAt at shape
        cases found : table[m.toNat]? with
        | none =>
            simp [found] at shape
        | some row =>
            simp only [found] at shape
            have member : head ∈ row.name.chars :=
              List.mem_of_mem_drop (shape ▸ List.mem_cons_self)
            exact absurd isNul (row.name.nul_lt member).ne'
  · intro empty
    rw [empty]
    rfl

/-- Reads of a window never fault and yield the next characters. -/
theorem Window.column
    {table : List SymbolDesc}
    {idx : Nat}
    {start stop m : Int}
    (window : Window table idx start stop)
    (above : start ≤ m)
    (below : m < stop) :
    column table idx m = .ok (nextChar (suffixAt table idx m)) := by
  have nonnegative := window.nonnegative
  have inside := window.inside
  have reaches := window.reaches m above below
  have present : m.toNat < table.length := by
    omega
  unfold Hamachi.column suffixAt nextChar at *
  rw [if_neg (by omega)]
  simp only [List.getElem?_eq_getElem present, List.drop_zero] at reaches ⊢
  simp [Name.charAt, reaches, List.headD_eq_head?_getD,
    List.head?_drop, List.getD_eq_getElem?_getD]

/-- The two tests of an iteration answer for the next characters. -/
theorem Window.answers
    {table : List SymbolDesc}
    {idx : Nat}
    {start stop : Int}
    (window : Window table idx start stop)
    (accepts : Char → Prop)
    [DecidablePred accepts] :
    AnswersOn
      (fun m => do return decide (accepts (← Hamachi.column table idx m)))
      (fun m => accepts (nextChar (suffixAt table idx m)))
      (start - 1) stop := by
  intro m above below
  simp [window.column (by omega) below, pure, Except.pure]

/-- The rows that continue with `char` form the next window. -/
theorem Window.narrow
    {table : List SymbolDesc}
    {idx : Nat}
    {start stop h stop' : Int}
    {char : Char}
    (window : Window table idx start stop)
    (proper : char ≠ nul)
    (low : start ≤ h)
    (ordered : h ≤ stop')
    (high : stop' ≤ stop)
    (continues :
      ∀ m, h ≤ m → m < stop' →
        nextChar (suffixAt table idx m) = char) :
    Window table (idx + 1) h stop' where
  nonnegative := window.nonnegative.trans low
  ordered := ordered
  inside := high.trans window.inside
  reaches := by
    intro m above below
    have next := continues m above below
    have reached := window.reaches m (by omega) (by omega)
    have dropped := suffixAt_drop table 0 idx m
    rw [Nat.zero_add] at dropped
    have nonempty : suffixAt table idx m ≠ [] := by
      intro empty
      exact proper (next ▸ nextChar_eq_nul.mpr empty)
    rw [← dropped, ne_eq, List.drop_eq_nil_iff] at nonempty
    omega

/-- Order toward a name is order toward its tail in the next window. -/
theorem SortedToward.narrow
    {table : List SymbolDesc}
    {idx : Nat}
    {start stop h stop' : Int}
    {char : Char}
    {rest : List Char}
    (sorted : SortedToward table idx start stop (char :: rest))
    (proper : char ≠ nul)
    (low : start ≤ h)
    (high : stop' ≤ stop)
    (continues :
      ∀ m, h ≤ m → m < stop' →
        nextChar (suffixAt table idx m) = char) :
    SortedToward table (idx + 1) h stop' rest := by
  have grow :
      ∀ depth m, h ≤ m → m < stop' →
        (suffixAt table (idx + 1) m).take depth = rest.take depth →
        (suffixAt table idx m).take (depth + 1) =
          (char :: rest).take (depth + 1) := by
    intro depth m above below agrees
    have next := continues m above below
    have nonempty : suffixAt table idx m ≠ [] := by
      intro empty
      exact proper (next ▸ nextChar_eq_nul.mpr empty)
    rw [suffixAt_eq_cons.mpr ⟨nonempty, next, rfl⟩]
    simp [agrees]
  intro depth bound first second above between below firstAgrees
    secondAgrees
  have step := sorted (depth + 1) (by simpa using bound) first second
    (low.trans above) between (by omega)
    (grow depth first above (by omega) firstAgrees)
    (grow depth second (by omega) below secondAgrees)
  rwa [show idx + (depth + 1) = idx + 1 + depth by omega] at step

/-- The name read from a column on is its remaining suffix. -/
theorem Name.charAt_of_drop
    {name : Name}
    {idx : Nat}
    {sought : List Char}
    (inside : idx ≤ name.chars.length)
    (remaining : name.chars.drop idx = sought) :
    name.charAt idx = .ok (nextChar sought) := by
  subst remaining
  simp [Name.charAt, inside, nextChar, List.headD_eq_head?_getD,
    List.head?_drop, List.getD_eq_getElem?_getD]

/-- A row whose next character differs is not the one sought. -/
theorem suffixAt_ne
    {table : List SymbolDesc}
    {idx : Nat}
    {m : Int}
    {sought : List Char}
    (differs : nextChar (suffixAt table idx m) ≠ nextChar sought) :
    suffixAt table idx m ≠ sought := by
  intro same
  exact differs (congrArg nextChar same)

/-- An answer for the tail in the narrowed window answers for the name. -/
theorem Finds.widen
    {table : List SymbolDesc}
    {idx : Nat}
    {start stop h stop' : Int}
    {char : Char}
    {rest : List Char}
    {answer : Option Int}
    (finds : Finds table (idx + 1) h stop' rest answer)
    (proper : char ≠ nul)
    (low : start ≤ h)
    (high : stop' ≤ stop)
    (continues :
      ∀ m, start - 1 < m → m < stop →
        (nextChar (suffixAt table idx m) = char ↔ h ≤ m ∧ m < stop')) :
    Finds table idx start stop (char :: rest) answer := by
  cases answer with
  | none =>
      intro m above below same
      obtain ⟨_, next, tail⟩ := suffixAt_eq_cons.mp same
      obtain ⟨fromLow, toHigh⟩ := (continues m (by omega) below).mp next
      exact finds m fromLow toHigh tail
  | some m =>
      obtain ⟨above, below, tail⟩ := finds
      have next :=
        (continues m (by omega) (by omega)).mpr ⟨above, below⟩
      have nonempty : suffixAt table idx m ≠ [] := by
        intro empty
        exact proper (next ▸ nextChar_eq_nul.mpr empty)
      exact ⟨low.trans above, by omega,
        suffixAt_eq_cons.mpr ⟨nonempty, next, tail⟩⟩

/-- The first column alone of a window that is sorted toward a name. -/
theorem SortedToward.column
    {table : List SymbolDesc}
    {idx : Nat}
    {start stop : Int}
    {sought : List Char}
    (sorted : SortedToward table idx start stop sought)
    {first second : Int}
    (above : start ≤ first)
    (between : first < second)
    (below : second < stop) :
    nextChar (suffixAt table idx first) ≤
      nextChar (suffixAt table idx second) :=
  sorted 0 (Nat.zero_le _) first second above between below rfl rfl

/-- The first search of an iteration: the first row not below the character. -/
theorem lowerSearch
    {table : List SymbolDesc}
    {idx : Nat}
    {start stop : Int}
    {sought : List Char}
    (window : Window table idx start stop)
    (sorted : SortedToward table idx start stop sought)
    (char : Char) :
    ∃ h,
      bisect (fun m => do return decide (char ≤ (← column table idx m)))
        (stop - start).toNat (start - 1) stop = .ok h ∧
      Boundary (fun m => char ≤ nextChar (suffixAt table idx m))
        (start - 1) stop h := by
  have nonnegative := window.nonnegative
  have ordered := window.ordered
  exact bisect_boundary (by omega) (by omega) (by omega)
    (window.answers (fun read => char ≤ read))
    (fun first second above between below passed =>
      passed.trans (sorted.column (by omega) between below))

/-- The second search of an iteration: the first row above the character. -/
theorem upperSearch
    {table : List SymbolDesc}
    {idx : Nat}
    {start stop h : Int}
    {sought : List Char}
    (window : Window table idx start stop)
    (sorted : SortedToward table idx start stop sought)
    (low : start ≤ h)
    (high : h ≤ stop)
    (char : Char) :
    ∃ stop',
      bisect (fun m => do return decide (char < (← column table idx m)))
        (stop - h).toNat (h - 1) stop = .ok stop' ∧
      Boundary (fun m => char < nextChar (suffixAt table idx m))
        (h - 1) stop stop' := by
  have nonnegative := window.nonnegative
  have answers := window.answers (fun read => char < read)
  exact bisect_boundary (by omega) (by omega) (by omega)
    (fun m above below => answers m (by omega) below)
    (fun first second above between below passed =>
      passed.trans_le (sorted.column (by omega) between below))

/-- The loop of `lookup_in` is exact on a window sorted toward the name. -/
theorem lookupLoop_finds
    {name : Name}
    {table : List SymbolDesc}
    {fuel idx : Nat}
    {start stop : Int}
    {sought : List Char}
    (enough : sought.length < fuel)
    (inside : idx ≤ name.chars.length)
    (remaining : name.chars.drop idx = sought)
    (window : Window table idx start stop)
    (sorted : SortedToward table idx start stop sought) :
    ∃ answer,
      lookupLoop name table fuel start stop idx = .ok answer ∧
        Finds table idx start stop sought answer := by
  induction fuel generalizing idx start stop sought with
  | zero =>
      simp at enough
  | succ fuel inductionHypothesis =>
      have read := Name.charAt_of_drop inside remaining
      obtain ⟨h, lower, isLower⟩ :=
        lowerSearch window sorted (nextChar sought)
      have low : start ≤ h := by
        have := isLower.above
        omega
      have before :
          ∀ m, start ≤ m → m < h →
            nextChar (suffixAt table idx m) < nextChar sought := by
        intro m above below
        exact not_le.mp (isLower.fails m (by omega) below)
      unfold lookupLoop
      simp only [read, lower, ok_bind]
      by_cases exhausted : h = stop
      · refine ⟨none, by simp [exhausted, pure, Except.pure], ?_⟩
        intro m above below
        exact suffixAt_ne (before m above (by omega)).ne
      have inWindow : h < stop := by
        have := isLower.atMost
        omega
      simp only [if_neg exhausted, window.column low inWindow, ok_bind]
      by_cases beyond :
          nextChar sought < nextChar (suffixAt table idx h)
      · refine ⟨none, by simp [beyond, pure, Except.pure], ?_⟩
        intro m above below
        rcases lt_trichotomy m h with early | rfl | late
        · exact suffixAt_ne (before m above early).ne
        · exact suffixAt_ne beyond.ne'
        · have ordered := sorted.column low late below
          exact suffixAt_ne (beyond.trans_le ordered).ne'
      have hit :
          nextChar (suffixAt table idx h) = nextChar sought :=
        le_antisymm (not_lt.mp beyond)
          (isLower.succeeds h le_rfl inWindow)
      simp only [if_neg beyond]
      cases sought with
      | nil =>
          refine ⟨some h, by simp [nextChar, pure, Except.pure],
            low, inWindow, ?_⟩
          exact nextChar_eq_nul.mp hit
      | cons char rest =>
          have proper : char ≠ nul := by
            have member : char ∈ name.chars :=
              List.mem_of_mem_drop (remaining ▸ List.mem_cons_self)
            exact (Name.nul_lt member).ne'
          obtain ⟨stop', upper, isUpper⟩ :=
            upperSearch window sorted low inWindow.le char
          have ordered : h ≤ stop' := by
            have := isUpper.above
            omega
          have continues := isLower.equal_iff isUpper
          have block :
              ∀ m, h ≤ m → m < stop' →
                nextChar (suffixAt table idx m) = char := by
            intro m late early
            have := isUpper.atMost
            exact (continues m (by omega) (by omega)).mpr ⟨late, early⟩
          have reached : idx < name.chars.length := by
            by_contra past
            rw [List.drop_eq_nil_of_le (not_lt.mp past)] at remaining
            cases remaining
          have tailLeft : name.chars.drop (idx + 1) = rest := by
            rw [← List.drop_drop, remaining]
            rfl
          obtain ⟨answer, runs, finds⟩ :=
            inductionHypothesis (by simpa using enough) reached tailLeft
              (window.narrow proper low ordered isUpper.atMost block)
              (sorted.narrow proper low isUpper.atMost block)
          refine ⟨answer, ?_,
            finds.widen proper low isUpper.atMost continues⟩
          have first : nextChar (char :: rest) = char := rfl
          simp only [first, if_neg proper, upper, ok_bind]
          exact runs

/-- A row stands before another in ASCII order. -/
def SymbolDesc.Before (first second : SymbolDesc) : Prop :=
  first.name.chars < second.name.chars

instance : DecidableRel SymbolDesc.Before :=
  fun _ _ => inferInstanceAs (Decidable (_ < _))

instance :
    Trans SymbolDesc.Before SymbolDesc.Before SymbolDesc.Before where
  trans := fun first second => List.lt_trans first second

/-- No character lies below the terminator. -/
theorem nul_le (char : Char) : nul ≤ char :=
  not_lt.mp (Nat.not_lt_zero char.toNat)

/-- Names in order agree in order: their next characters do not decrease. -/
theorem nextChar_le_of_lt
    {first second sought : List Char}
    {depth : Nat}
    (less : first < second)
    (firstAgrees : first.take depth = sought.take depth)
    (secondAgrees : second.take depth = sought.take depth) :
    nextChar (first.drop depth) ≤ nextChar (second.drop depth) := by
  by_contra decreases
  have reversed : second.drop depth < first.drop depth := by
    cases firstLeft : first.drop depth with
    | nil =>
        rw [firstLeft] at decreases
        exact absurd (nul_le _) decreases
    | cons head tail =>
        cases secondLeft : second.drop depth with
        | nil =>
            exact List.nil_lt_cons head tail
        | cons secondHead secondTail =>
            rw [firstLeft, secondLeft] at decreases
            exact List.cons_lt_cons_iff.mpr (.inl (not_le.mp decreases))
  have wholeReversed : second < first := by
    rw [← List.take_append_drop depth first, firstAgrees,
      ← List.take_append_drop depth second, secondAgrees]
    exact List.append_left_lt reversed
  exact List.lt_asymm less wholeReversed

/-- The suffix of a row, by its position in the table. -/
theorem suffixAt_getElem
    {table : List SymbolDesc}
    {idx : Nat}
    {m : Int}
    (inside : m.toNat < table.length) :
    suffixAt table idx m = (table[m.toNat]).name.chars.drop idx := by
  simp [suffixAt, List.getElem?_eq_getElem inside]

/-- The whole table is a window of the first column. -/
theorem window_whole (table : List SymbolDesc) :
    Window table 0 0 table.length where
  nonnegative := le_rfl
  ordered := by omega
  inside := le_rfl
  reaches := fun _ _ _ => Nat.zero_le _

/-- In a table in ASCII order every name is searched for in order. -/
theorem sortedToward_of_pairwise
    {table : List SymbolDesc}
    (sorted : table.Pairwise SymbolDesc.Before)
    (sought : List Char) :
    SortedToward table 0 0 table.length sought := by
  intro depth _ first second above between below firstAgrees
    secondAgrees
  have firstInside : first.toNat < table.length := by
    omega
  have secondInside : second.toNat < table.length := by
    omega
  simp only [suffixAt_getElem firstInside, suffixAt_getElem secondInside,
    List.drop_zero, Nat.zero_add] at firstAgrees secondAgrees ⊢
  have less := List.pairwise_iff_getElem.mp sorted
    first.toNat second.toNat firstInside secondInside (by omega)
  exact nextChar_le_of_lt less firstAgrees secondAgrees

/-- A correct answer over a whole table of distinct names is the position of
the name. -/
theorem Finds.eq_findIdx
    {table : List SymbolDesc}
    {name : Name}
    {answer : Option Int}
    (finds : Finds table 0 0 table.length name.chars answer)
    (distinct :
      table.Pairwise fun first second => first.name ≠ second.name) :
    answer =
      (table.findIdx? fun row => row.name = name).map Int.ofNat := by
  cases answer with
  | none =>
      have absent :
          table.findIdx? (fun row => row.name = name) = none := by
        rw [List.findIdx?_eq_none_iff]
        intro row member
        obtain ⟨index, inside, rfl⟩ := List.getElem_of_mem member
        rw [decide_eq_false_iff_not]
        rintro rfl
        refine finds index (by omega) (by omega) ?_
        rw [suffixAt_getElem (by simpa using inside)]
        rfl
      rw [absent]
      rfl
  | some m =>
      obtain ⟨above, below, found⟩ := finds
      have inside : m.toNat < table.length := by
        omega
      rw [suffixAt_getElem inside, List.drop_zero] at found
      have present :
          table.findIdx? (fun row => row.name = name) =
            some m.toNat := by
        rw [List.findIdx?_eq_some_iff_getElem]
        refine ⟨inside, decide_eq_true (Name.ext found), ?_⟩
        intro earlier before
        simp only [decide_eq_true_eq]
        intro same
        exact List.pairwise_iff_getElem.mp distinct earlier m.toNat
          (by omega) inside before
          (same.trans (Name.ext found).symm)
      rw [present]
      simp [Int.toNat_of_nonneg above]

/-- `lookup_in` is exact on a table in ASCII order: it reads within the names
and the table only, and answers with the row of that name if there is one. -/
theorem lookupIn_sorted
    {table : List SymbolDesc}
    (sorted : table.Pairwise SymbolDesc.Before)
    (name : Name) :
    lookupIn name table table.length =
      .ok ((table.findIdx? fun row => row.name = name).map
        Int.ofNat) := by
  obtain ⟨answer, runs, finds⟩ :=
    lookupLoop_finds (Nat.lt_succ_self _) (Nat.zero_le _)
      List.drop_zero (window_whole table)
      (sortedToward_of_pairwise sorted name.chars)
  have distinct :
      table.Pairwise fun first second => first.name ≠ second.name := by
    refine sorted.imp ?_
    intro first second less same
    rw [SymbolDesc.Before, same] at less
    exact List.lt_irrefl _ less
  rw [← finds.eq_findIdx distinct]
  exact runs

theorem prefixRows_ascii :
    "ab".toList.all isNameChar = true ∧
      "abc".toList.all isNameChar = true ∧
      "b".toList.all isNameChar = true :=
  ⟨rfl, rfl, rfl⟩

/-- Rows of which one is a prefix of another. -/
def prefixRows : List SymbolDesc :=
  [
    .row "ab" prefixRows_ascii.1 .null true,
    .row "abc" prefixRows_ascii.2.1 .null true,
    .row "b" prefixRows_ascii.2.2 .null true
  ]

/-- The longer of two names that share a prefix is found. -/
theorem lookupIn_sorted_prefixRows :
    prefixRows.Pairwise SymbolDesc.Before ∧
      lookupIn (.ofLiteral "abc" prefixRows_ascii.2.1) prefixRows
        prefixRows.length = .ok (some 1) := by
  have sorted : prefixRows.Pairwise SymbolDesc.Before := by
    decide
  refine ⟨sorted, ?_⟩
  rw [lookupIn_sorted sorted]
  decide

end Hamachi
