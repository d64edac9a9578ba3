import Hamachi.LookupExact
import Mathlib.Tactic.IntervalCases

namespace Hamachi

/-!
# Resolution over the shipped table

Every pair of rows of `symbols[]` is in ASCII order except `getpid` before
`getpeername`.  The search is therefore exact for names that do not begin with
`getp`.  For those it reaches the window of the two rows, compares column four
against `getpid` only, and from column five on the window is in order again, as
if its second row were `getpiername`.
-/

theorem getpid_ascii : "getpid".toList.all isNameChar = true := rfl

theorem getpeername_ascii : "getpeername".toList.all isNameChar = true := rfl

theorem getpiername_ascii : "getpiername".toList.all isNameChar = true := rfl

def getpid : Name := .ofLiteral "getpid" getpid_ascii

def getpeername : Name := .ofLiteral "getpeername" getpeername_ascii

def getpiername : Name := .ofLiteral "getpiername" getpiername_ascii

/-- The characters the two misplaced names share. -/
def getp : List Char := "getp".toList

/-- The entry whose name equals the string, if there is one. -/
def namedEntry (name : Name) : Option SymbolPointer :=
  (symbols.findIdx? fun row => row.name = name).map
    fun index => .symbols index

set_option maxRecDepth 4000 in
/-- With the two misplaced rows swapped the table is sorted. -/
theorem symbols_swapped :
    (symbols.take 44 ++ symbols[45] :: symbols[44] ::
      symbols.drop 46).IsChain SymbolDesc.Before := by
  decide

/-- Two neighbours that are swapped back are the only pair out of order. -/
theorem pairwise_of_swapped
    {Item : Type}
    {Before : Item → Item → Prop}
    {leading trailing : List Item}
    {first second : Item}
    (swapped :
      (leading ++ second :: first :: trailing).Pairwise Before) :
    (leading ++ first :: second :: trailing).Pairwise
      fun earlier later =>
        Before earlier later ∨ earlier = first ∧ later = second := by
  simp only [List.pairwise_append, List.pairwise_cons] at swapped ⊢
  obtain ⟨ordered, ⟨afterSecond, afterFirst, rest⟩, across⟩ := swapped
  refine ⟨ordered.imp .inl, ⟨?_, ?_, rest.imp .inl⟩, ?_⟩
  · grind
  · grind
  · grind

/-- All pairs of rows are in order, one pair excepted. -/
theorem symbols_pairwise :
    symbols.Pairwise fun first second =>
      first.name.chars < second.name.chars ∨
        first.name = getpid ∧ second.name = getpeername := by
  have split :
      symbols =
        symbols.take 44 ++ symbols[44] :: symbols[45] ::
          symbols.drop 46 := by
    rw [List.getElem_cons_drop, List.getElem_cons_drop,
      List.take_append_drop]
  rw [split]
  refine (pairwise_of_swapped symbols_swapped.pairwise).imp ?_
  rintro first second (before | ⟨rfl, rfl⟩)
  · exact .inl before
  · exact .inr ⟨rfl, rfl⟩

set_option maxRecDepth 4000 in
/-- The rows whose names begin with `getp`. -/
theorem symbols_getp :
    ∀ row ∈ symbols, getp <+: row.name.chars →
      row.name = getpid ∨ row.name = getpeername := by
  decide

/-- The two misplaced names differ from column four on. -/
theorem misplaced_agree
    {sought : List Char}
    {depth : Nat}
    (firstAgrees : getpid.chars.take depth = sought.take depth)
    (secondAgrees : getpeername.chars.take depth = sought.take depth)
    (elsewhere : ¬ getp <+: sought) :
    nextChar (getpid.chars.drop depth) ≤
      nextChar (getpeername.chars.drop depth) := by
  have same := firstAgrees.trans secondAgrees.symm
  have short : depth ≤ 4 := by
    by_contra long
    have prefixes := congrArg (List.take 5) same
    rw [List.take_take, List.take_take,
      Nat.min_eq_left (by omega)] at prefixes
    exact absurd prefixes (by decide)
  have notFour : depth ≠ 4 := by
    rintro rfl
    have begins := List.take_prefix 4 sought
    rw [← firstAgrees] at begins
    exact elsewhere begins
  have early : depth < 4 := by
    omega
  interval_cases depth <;> decide

/-- The shipped table is sorted toward names that do not begin with `getp`. -/
theorem symbols_sortedToward
    {sought : List Char}
    (elsewhere : ¬ getp <+: sought) :
    SortedToward symbols 0 0 symbols.length sought := by
  intro depth _ first second above between below firstAgrees
    secondAgrees
  have firstInside : first.toNat < symbols.length := by
    omega
  have secondInside : second.toNat < symbols.length := by
    omega
  simp only [suffixAt_getElem firstInside, suffixAt_getElem secondInside,
    List.drop_zero, Nat.zero_add] at firstAgrees secondAgrees ⊢
  have related := List.pairwise_iff_getElem.mp symbols_pairwise
    first.toNat second.toNat firstInside secondInside (by omega)
  rcases related with less | ⟨isGetpid, isGetpeername⟩
  · exact nextChar_le_of_lt less firstAgrees secondAgrees
  · rw [isGetpid] at firstAgrees ⊢
    rw [isGetpeername] at secondAgrees ⊢
    exact misplaced_agree firstAgrees secondAgrees elsewhere

/-- One iteration that goes on to the next column. -/
theorem lookupLoop_step
    {name : Name}
    {table : List SymbolDesc}
    {fuel idx : Nat}
    {start stop : Int}
    (char : Char)
    (h stop' : Int)
    (read : name.charAt idx = .ok char)
    (proper : char ≠ nul)
    (lower :
      bisect (fun m => do return decide (char ≤ (← column table idx m)))
        (stop - start).toNat (start - 1) stop = .ok h)
    (inWindow : h ≠ stop)
    (hit : column table idx h = .ok char)
    (upper :
      bisect (fun m => do return decide (char < (← column table idx m)))
        (stop - h).toNat (h - 1) stop = .ok stop') :
    lookupLoop name table (fuel + 1) start stop idx =
      lookupLoop name table fuel h stop' (idx + 1) := by
  conv_lhs => unfold lookupLoop
  simp only [read, lower, hit, upper, ok_bind, if_neg inWindow,
    if_neg (lt_irrefl char), if_neg proper]

/-- One iteration that finds every row below the character. -/
theorem lookupLoop_exhausted
    {name : Name}
    {table : List SymbolDesc}
    {fuel idx : Nat}
    {start stop : Int}
    {char : Char}
    (read : name.charAt idx = .ok char)
    (lower :
      bisect (fun m => do return decide (char ≤ (← column table idx m)))
        (stop - start).toNat (start - 1) stop = .ok stop) :
    lookupLoop name table (fuel + 1) start stop idx = .ok none := by
  unfold lookupLoop
  simp only [read, lower, ok_bind, if_true]
  rfl

/-- One iteration whose first row not below the character is above it. -/
theorem lookupLoop_beyond
    {name : Name}
    {table : List SymbolDesc}
    {fuel idx : Nat}
    {start stop h : Int}
    {char found : Char}
    (read : name.charAt idx = .ok char)
    (lower :
      bisect (fun m => do return decide (char ≤ (← column table idx m)))
        (stop - start).toNat (start - 1) stop = .ok h)
    (inWindow : h ≠ stop)
    (hit : column table idx h = .ok found)
    (beyond : char < found) :
    lookupLoop name table (fuel + 1) start stop idx = .ok none := by
  unfold lookupLoop
  simp only [read, lower, hit, ok_bind, if_neg inWindow, if_pos beyond]
  rfl

/-- A name that begins with `getp` reaches the two misplaced rows. -/
theorem lookupLoop_getp
    {name : Name}
    {rest : List Char}
    (shape : name.chars = getp ++ rest) :
    lookupIn name symbols symbols.length =
      lookupLoop name symbols (rest.length + 1) 44 46 4 := by
  have read :
      ∀ idx (inside : idx < getp.length),
        name.charAt idx = .ok getp[idx] := by
    intro idx inside
    have within : idx ≤ name.chars.length := by
      rw [shape, List.length_append]
      omega
    simp only [Name.charAt, if_pos within]
    simp [shape, List.getD_eq_getElem?_getD, List.getElem?_append_left,
      inside]
  have length : name.chars.length + 1 = rest.length + 1 + 4 := by
    rw [shape, List.length_append, show getp.length = 4 from rfl]
    omega
  unfold lookupIn
  rw [length]
  rw [lookupLoop_step 'g' 40 50 (read 0 (by decide)) (by decide)
      (by decide +kernel) (by decide) (by decide +kernel)
      (by decide +kernel),
    lookupLoop_step 'e' 40 50 (read 1 (by decide)) (by decide)
      (by decide +kernel) (by decide) (by decide +kernel)
      (by decide +kernel),
    lookupLoop_step 't' 40 50 (read 2 (by decide)) (by decide)
      (by decide +kernel) (by decide) (by decide +kernel)
      (by decide +kernel),
    lookupLoop_step 'p' 44 46 (read 3 (by decide)) (by decide)
      (by decide +kernel) (by decide) (by decide +kernel)
      (by decide +kernel)]

/-- The first misplaced row. -/
theorem row_getpid :
    suffixAt symbols 0 44 = ['g', 'e', 't', 'p', 'i', 'd'] :=
  rfl

/-- The second misplaced row. -/
theorem row_getpeername :
    suffixAt symbols 0 45 =
      ['g', 'e', 't', 'p', 'e', 'e', 'r', 'n', 'a', 'm', 'e'] :=
  rfl

/-- The two rows form a window of every column that both reach. -/
theorem window_pair
    {idx : Nat}
    (short : idx ≤ 6) :
    Window symbols idx 44 46 where
  nonnegative := by decide
  ordered := by decide
  inside := by
    have length : symbols.length = 117 := rfl
    omega
  reaches := by
    intro m above below
    have isPair : m = 44 ∨ m = 45 := by
      omega
    rcases isPair with rfl | rfl
    · rw [row_getpid]
      exact short
    · rw [row_getpeername]
      exact short.trans (by decide)

theorem suffix_getpid (idx : Nat) :
    suffixAt symbols idx 44 =
      ['g', 'e', 't', 'p', 'i', 'd'].drop idx := by
  rw [← row_getpid, suffixAt_drop, Nat.zero_add]

theorem suffix_getpeername (idx : Nat) :
    suffixAt symbols idx 45 =
      ['g', 'e', 't', 'p', 'e', 'e', 'r', 'n', 'a', 'm', 'e'].drop idx := by
  rw [← row_getpeername, suffixAt_drop, Nat.zero_add]

theorem column_getpid : column symbols 4 44 = .ok 'i' := by
  rw [(window_pair (by decide)).column (by decide) (by decide),
    suffix_getpid]
  rfl

theorem column_getpeername : column symbols 4 45 = .ok 'e' := by
  rw [(window_pair (by decide)).column (by decide) (by decide),
    suffix_getpeername]
  rfl

/-- In the window of the two rows, column four is compared with `i` only. -/
theorem lookupLoop_getp_other
    {name : Name}
    {fuel : Nat}
    {char : Char}
    (read : name.charAt 4 = .ok char)
    (differs : char ≠ 'i') :
    lookupLoop name symbols (fuel + 1) 44 46 4 = .ok none := by
  rcases lt_or_gt_of_ne differs with below | above
  · have lower :
        bisect (fun m => do return decide (char ≤ (← column symbols 4 m)))
          2 43 46 = .ok 44 := by
      simp [bisect, column_getpid, below.le, pure, Except.pure]
    exact lookupLoop_beyond read lower (by decide) column_getpid below
  · have aboveSecond : 'e' < char :=
      lt_trans (by decide) above
    have lower :
        bisect (fun m => do return decide (char ≤ (← column symbols 4 m)))
          2 43 46 = .ok 46 := by
      simp [bisect, column_getpid, column_getpeername, above.not_ge,
        aboveSecond.not_ge, pure, Except.pure]
    exact lookupLoop_exhausted read lower

/-- From column five on the two rows are in order. -/
theorem sortedToward_pair (sought : List Char) :
    SortedToward symbols 5 44 46 sought := by
  intro depth _ first second above between below firstAgrees secondAgrees
  obtain rfl : first = 44 := by
    omega
  obtain rfl : second = 45 := by
    omega
  cases depth with
  | zero =>
      rw [suffix_getpid, suffix_getpeername]
      decide
  | succ depth =>
      have same := firstAgrees.trans secondAgrees.symm
      rw [suffix_getpid, suffix_getpeername] at same
      simp at same

/-- After `getpi` the search is between `d` and `ername`. -/
theorem lookupIn_getpi
    {name : Name}
    {rest : List Char}
    (shape : name.chars = getp ++ 'i' :: rest) :
    ∃ answer,
      lookupIn name symbols symbols.length = .ok answer ∧
        Finds symbols 5 44 46 rest answer := by
  have read : name.charAt 4 = .ok 'i' := by
    simp [Name.charAt, shape, getp]
  have long : 5 ≤ name.chars.length := by
    simp [shape, getp]
  have remaining : name.chars.drop 5 = rest := by
    rw [shape]
    rfl
  obtain ⟨answer, runs, finds⟩ :=
    lookupLoop_finds (Nat.lt_succ_self rest.length) long remaining
      (window_pair (by decide)) (sortedToward_pair rest)
  have lower :
      bisect (fun m => do return decide ('i' ≤ (← column symbols 4 m)))
        2 43 46 = .ok 44 := by
    simp [bisect, column_getpid, pure, Except.pure]
  have upper :
      bisect (fun m => do return decide ('i' < (← column symbols 4 m)))
        2 43 46 = .ok 46 := by
    simp [bisect, column_getpid, column_getpeername, pure, Except.pure]
  refine ⟨answer, ?_, finds⟩
  rw [lookupLoop_getp shape, List.length_cons, ← runs]
  exact lookupLoop_step 'i' 44 46 read (by decide) lower (by decide)
    column_getpid upper

/-- A name beginning with `getp` that is neither misplaced name has no row. -/
theorem finds_none_getp
    {name : Name}
    (begins : getp <+: name.chars)
    (notGetpid : name ≠ getpid)
    (notGetpeername : name ≠ getpeername) :
    Finds symbols 0 0 symbols.length name.chars none := by
  intro m above below same
  have inside : m.toNat < symbols.length := by
    omega
  rw [suffixAt_getElem inside, List.drop_zero] at same
  have isRow := symbols_getp _ (List.getElem_mem inside) (same ▸ begins)
  rw [Name.ext same] at isRow
  exact isRow.elim notGetpid notGetpeername

/-- The search over the table is exact but for the two names. -/
theorem lookupIn_symbols
    {name : Name}
    (notGetpeername : name ≠ getpeername)
    (notGetpiername : name ≠ getpiername) :
    ∃ answer,
      lookupIn name symbols symbols.length = .ok answer ∧
        Finds symbols 0 0 symbols.length name.chars answer := by
  by_cases begins : getp <+: name.chars
  · obtain ⟨rest, shape⟩ := begins
    replace shape := shape.symm
    by_cases continues : nextChar rest = 'i'
    · cases rest with
      | nil =>
          exact absurd continues (by decide)
      | cons char tail =>
          obtain rfl : char = 'i' := continues
          obtain ⟨answer, runs, finds⟩ := lookupIn_getpi shape
          refine ⟨answer, runs, ?_⟩
          cases answer with
          | none =>
              refine finds_none_getp ⟨_, shape.symm⟩ ?_ notGetpeername
              rintro rfl
              have isTail : tail = ['d'] := by
                simpa [getpid, getp, Name.ofLiteral] using shape.symm
              exact finds 44 (by decide) (by decide)
                ((suffix_getpid 5).trans isTail.symm)
          | some m =>
              obtain ⟨above, below, found⟩ := finds
              have isPair : m = 44 ∨ m = 45 := by
                omega
              rcases isPair with rfl | rfl
              · rw [← (suffix_getpid 5).symm.trans found] at shape
                refine ⟨by decide, ?_, ?_⟩
                · exact lt_of_lt_of_le (by decide)
                    (window_pair (Nat.zero_le _)).inside
                · rw [shape]
                  exact row_getpid
              · rw [← (suffix_getpeername 5).symm.trans found] at shape
                exact absurd (Name.ext shape) notGetpiername
    · have read : name.charAt 4 = .ok (nextChar rest) :=
        Name.charAt_of_drop (by simp [shape, getp]) (by rw [shape]; rfl)
      refine ⟨none, ?_, finds_none_getp ⟨rest, shape.symm⟩ ?_
        notGetpeername⟩
      · rw [lookupLoop_getp shape]
        exact lookupLoop_getp_other read continues
      · rintro rfl
        have isRest : rest = ['i', 'd'] := by
          simpa [getpid, getp, Name.ofLiteral] using shape.symm
        exact continues (isRest ▸ rfl)
  · exact lookupLoop_finds (Nat.lt_succ_self _) (Nat.zero_le _)
      List.drop_zero (window_whole symbols) (symbols_sortedToward begins)

/-- No two rows share a name. -/
theorem symbols_names_distinct :
    symbols.Pairwise fun first second => first.name ≠ second.name := by
  refine symbols_pairwise.imp ?_
  rintro first second (less | ⟨isGetpid, isGetpeername⟩) same
  · rw [same] at less
    exact List.lt_irrefl _ less
  · rw [isGetpid, isGetpeername] at same
    exact absurd same (by decide)

/-- A correct answer over the whole table is the entry of that name. -/
theorem Finds.namedEntry
    {name : Name}
    {answer : Option Int}
    (finds : Finds symbols 0 0 symbols.length name.chars answer) :
    answer.map SymbolPointer.symbols = namedEntry name := by
  rw [finds.eq_findIdx symbols_names_distinct, Hamachi.namedEntry]
  cases symbols.findIdx? fun row => row.name = name with
  | none =>
      rfl
  | some index =>
      rfl

/-- Without an auxiliary table the second search finds nothing. -/
theorem lookupIn_empty (name : Name) :
    lookupIn name [] 0 = .ok none :=
  lookupLoop_exhausted
    (Name.charAt_of_drop (Nat.zero_le _) List.drop_zero)
    (bisect_empty (by decide))

/-- For two names the answer is not the entry of that name. -/
theorem lookup_misplaced :
    lookup getpeername [] 0 ≠ .ok (namedEntry getpeername) ∧
      lookup getpiername [] 0 ≠ .ok (namedEntry getpiername) := by
  decide +kernel

/-- `lookup` over the shipped table is exact for every name but two: it misses
`getpeername`, and answers `getpiername` with its row. -/
theorem lookup_eq_namedEntry_iff (name : Name) :
    lookup name [] 0 = .ok (namedEntry name) ↔
      name ≠ getpeername ∧ name ≠ getpiername := by
  constructor
  · intro exact
    constructor
    · rintro rfl
      exact lookup_misplaced.1 exact
    · rintro rfl
      exact lookup_misplaced.2 exact
  · rintro ⟨notGetpeername, notGetpiername⟩
    obtain ⟨answer, runs, finds⟩ :=
      lookupIn_symbols notGetpeername notGetpiername
    rw [← finds.namedEntry]
    unfold lookup
    rw [runs]
    cases answer with
    | none =>
        simp [lookupIn_empty, pure, Except.pure]
    | some index =>
        rfl

/-- The search for `getpeername` misses its row. -/
theorem lookup_getpeername :
    ¬ ∀ name, lookup name [] 0 = .ok (namedEntry name) := by
  intro exact
  exact lookup_misplaced.1 (exact getpeername)

end Hamachi
