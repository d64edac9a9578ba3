import Mathlib.Data.List.TakeWhile
import Hamachi.OwnedBlocks
import Hamachi.Session
import Hamachi.Simulation

namespace Hamachi

/-!
# Commands and their output

A state of the application shows a session: what it gets from outside is the
same, and it has run the same commands and asked the same.  The blocks that are known at a point
stand in the relation; those that the application loses are forgotten.
-/

namespace App

open Program

/-- The same is to come, and the same commands were run and the same dialogs
answered, in the same order. -/
structure Alike (state : AppState) (session : SessionState) : Prop where
  pads : state.pads = session.pads
  outputs : state.outputs = session.outputs
  imes : state.imes = session.imes
  exchanged :
    state.events.filterMap Event.exchange? =
      session.story.filterMap Happening.exchange?
  small : ∀ output ∈ state.outputs, output.flatten.length ≤ 2 ^ 63

theorem Alike.ran
    {state : AppState}
    {session : SessionState}
    (alike : Alike state session) :
    state.events.filterMap Event.argv? =
      session.story.filterMap Happening.argv? := by
  rw [← Event.argv?_of_exchange, alike.exchanged,
    Happening.argv?_of_exchange]

/-- Between two commands: nothing is captured. -/
structure Shows
    (owned : Owned Cell)
    (state : AppState)
    (session : SessionState) : Prop extends Alike state session where
  backed : owned.Backed state.heap state.allocated
  empty : state.popen = .empty
  noData : state.popenData = 0

/-- During a command, which has printed some bytes. -/
structure Captures
    (owned : Owned Cell)
    (bytes : List Byte)
    (state : AppState)
    (session : SessionState) : Prop extends Alike state session where
  holds : state.popen.Holds bytes
  apart : owned state.popenData = none
  backed :
    (owned.place state.popenData (.chars state.popen.data)).Backed state.heap
      state.allocated
  null : state.popenData = 0 → state.popen.cap = 0

/-- After a command: a block that begins with the output, or a null pointer. -/
def CapturedAt
    (owned : Owned Cell)
    (result : Addr × Nat)
    (output : List Byte)
    (state : AppState)
    (session : SessionState) : Prop :=
  ∃ bytes,
    (owned result.1 = none ∧ result.2 = output.length ∧
        bytes.take output.length = output ∧ (result.1 = 0 → bytes = [])) ∧
      Shows (owned.place result.1 (.chars bytes)) state session

/-- The string of an error, or a null pointer. -/
def ErrorAt
    (owned : Owned Cell)
    (errs : Addr)
    (error : Option (List Byte))
    (state : AppState)
    (session : SessionState) : Prop :=
  match error with
  | none => errs = 0 ∧ Shows owned state session
  | some message =>
      ∃ bytes,
        (errs ≠ 0 ∧ owned errs = none ∧ textAt bytes 0 = .ok message) ∧
          Shows (owned.place errs (.chars bytes)) state session

variable {owned : Owned Cell}

section Blocks

theorem silent_malloc (cell : Cell) :
    Silent (Shows owned) (malloc cell) fun address state session =>
      (address ≠ 0 ∧ owned address = none) ∧
        Shows (owned.place address cell) state session :=
  fun state _ shows =>
    ⟨state.allocated + 1, _, rfl,
      ⟨Nat.succ_ne_zero _, shows.backed.next⟩,
      { shows with backed := shows.backed.malloc cell }⟩

theorem silent_free
    {address : Addr}
    {cell : Cell}
    (absent : owned address = none) :
    Silent (Shows (owned.place address cell)) (free address)
      fun _ => Shows owned := by
  intro state session shows
  obtain ⟨released, isReleased, backed⟩ :=
    shows.backed.release (fun _ => none) absent
  refine ⟨(), { state with heap := released }, ?_,
    { shows with backed := backed }⟩
  simp [free, isReleased, ofExcept]

theorem silent_realloc
    {address : Addr}
    {old : Cell}
    (absent : owned address = none)
    (cell : Cell) :
    Silent (Shows (owned.place address old)) (realloc address cell)
      fun address state session =>
        (address ≠ 0 ∧ owned address = none) ∧
          Shows (owned.place address cell) state session :=
  (silent_free absent).bind fun _ => silent_malloc cell

theorem silent_bytesOf
    {address : Addr}
    {bytes : List Byte}
    (content : address ≠ 0 → owned address = some (.chars bytes))
    (null : address = 0 → bytes = []) :
    Silent (Shows owned) (bytesOf address) fun result state session =>
      result = bytes ∧ Shows owned state session := by
  intro state session shows
  refine ⟨bytes, state, ?_, rfl, shows⟩
  by_cases isNull : address = 0
  · simp [bytesOf, isNull, null isNull]
  · have loaded := shows.backed.load (content isNull)
    simp [bytesOf, isNull, loaded, ofExcept]

theorem silent_text
    {address : Addr}
    {bytes message : List Byte}
    (content : owned address = some (.chars bytes))
    (reads : textAt bytes 0 = .ok message) :
    Silent (Shows owned) (text address) fun result state session =>
      result = message ∧ Shows owned state session := by
  intro state session shows
  have proper : address ≠ 0 := (shows.backed _ _ content).1
  have loaded := shows.backed.load content
  refine ⟨message, state, ?_, rfl, shows⟩
  simp [text, bytesOf, proper, loaded, ofExcept, reads]

end Blocks

section Strings

theorem string_noZero (bytes : List Byte) : 0 ∉ Session.string bytes := by
  intro member
  have kept := List.all_eq_true.mp List.all_takeWhile 0 member
  simp at kept

theorem string_eq_self
    {bytes : List Byte}
    (noZero : 0 ∉ bytes) :
    Session.string bytes = bytes :=
  List.takeWhile_eq_self_iff.mpr fun _ member =>
    bne_iff_ne.mpr (ne_of_mem_of_not_mem member noZero)

/-- A block with a terminator is read up to the first one. -/
theorem textAt_string (bytes rest : List Byte) :
    textAt (bytes ++ 0 :: rest) 0 = .ok (Session.string bytes) := by
  obtain ⟨others, shape⟩ :
      ∃ others,
        bytes ++ 0 :: rest = Session.string bytes ++ 0 :: others := by
    induction bytes with
    | nil =>
        exact ⟨rest, rfl⟩
    | cons byte bytes inductionHypothesis =>
        by_cases zero : byte = 0
        · subst zero
          exact ⟨bytes ++ 0 :: rest, rfl⟩
        · obtain ⟨others, shape⟩ := inductionHypothesis
          refine ⟨others, ?_⟩
          rw [Session.string, List.takeWhile_cons_of_pos (by simpa using zero),
            List.cons_append, shape]
          rfl
  exact @textAt_text _ _ others _ (by simpa using shape)
    (string_noZero bytes)

/-- What an enlarged block holds in front of its terminator. -/
theorem terminated_block
    {bytes output : List Byte}
    (junk : Nat → Byte)
    (holds : bytes.take output.length = output) :
    (reallocated bytes (output.length + 1) junk).set output.length 0 =
      output ++ [0] := by
  have inside : output.length ≤ bytes.length := by
    have length := congrArg List.length holds
    rw [List.length_take] at length
    omega
  have kept :=
    reallocated_take junk inside (Nat.le_succ output.length)
  have size : (reallocated bytes (output.length + 1) junk).length =
      output.length + 1 := by
    simp [reallocated]
  rw [holds] at kept
  rw [List.set_eq_take_append_cons_drop, if_pos (by omega), kept,
    List.drop_eq_nil_of_le (by omega)]

end Strings

section Commands

/-- The block that the statics of `popen.c` refer to after a write. -/
theorem silent_popenWrite
    {bytes buf : List Byte}
    (small : bytes.length + buf.length ≤ 2 ^ 63) :
    Silent (Captures owned bytes) (popenWrite buf)
      fun _ => Captures owned (bytes ++ buf) := by
  intro state session captures
  obtain ⟨next, writes⟩ := captures.holds.write_returns state.junk small
  have holds := (captures.holds.write_completed writes).1
  rw [List.take_length] at holds
  suffices block :
      ∃ address heap allocated,
        popenBlock state.popenData state.popen next state =
            (.ok address,
              { state with heap := heap, allocated := allocated }) ∧
          owned address = none ∧
          (owned.place address (.chars next.data)).Backed heap allocated ∧
          (address = 0 → next.cap = 0) by
    obtain ⟨address, heap, allocated, returns, apart, backed, null⟩ := block
    refine ⟨(), { state with
      heap := heap
      allocated := allocated
      popen := next
      popenData := address }, ?_,
      { captures with
        holds := holds, apart := apart, backed := backed, null := null }⟩
    simp [popenWrite, writes, ofExcept, returns]
  by_cases grows : next.cap > state.popen.cap
  · obtain ⟨released, isReleased, backed⟩ :=
      captures.backed.release (fun _ => none) captures.apart
    refine ⟨state.allocated + 1, _, state.allocated + 1, ?_, backed.next,
      backed.malloc _, fun isNull => absurd isNull (Nat.succ_ne_zero _)⟩
    simp [popenBlock, grows, realloc, free, isReleased, ofExcept, malloc]
  · by_cases isNull : state.popenData = 0
    · have noCap := captures.null isNull
      refine ⟨0, state.heap, state.allocated, ?_, ?_, ?_, fun _ => by omega⟩
      · simp only [popenBlock, if_neg grows, if_pos isNull, pure_apply]
      · rw [← isNull]
        exact captures.apart
      · have backed := captures.backed
        rw [isNull] at backed
        simpa using backed
    · obtain ⟨stored, isStored, backed⟩ :=
        captures.backed.store isNull (.chars next.data)
      refine ⟨state.popenData, stored, state.allocated, ?_, captures.apart,
        backed, fun null => absurd null isNull⟩
      simp [popenBlock, grows, isNull, store, isStored, ofExcept]

/-- All that a command prints is captured. -/
theorem silent_output
    {bytes : List Byte}
    {output : List (List Byte)}
    (small : (bytes ++ output.flatten).length ≤ 2 ^ 63) :
    Silent (Captures owned bytes) (output.forM popenWrite)
      fun _ => Captures owned (bytes ++ output.flatten) := by
  induction output generalizing bytes with
  | nil =>
      exact .pure fun state session captures => by simpa using captures
  | cons buf rest inductionHypothesis =>
      rw [List.flatten_cons, ← List.append_assoc] at small ⊢
      have first : bytes.length + buf.length ≤ 2 ^ 63 := by
        simp only [List.length_append] at small
        omega
      exact (silent_popenWrite first).bind fun _ => inductionHypothesis small

/-- `runCommand` and the output that the session has printed. -/
theorem simulates_runCommand :
    Simulates (Captures owned []) runCommand Session.printed
      (fun _ output => Captures owned output) Alike := by
  intro state session captures
  have same := captures.outputs
  cases isOutputs : session.outputs with
  | nil =>
      rw [isOutputs] at same
      simpa [runCommand, Session.printed, same, isOutputs, Together] using
        captures.toAlike
  | cons output outputs =>
      rw [isOutputs] at same
      have small := captures.small
      rw [same] at small
      have fits := small output (List.mem_cons_self ..)
      have begun :
          Captures owned [] { state with outputs := outputs }
            { session with
              outputs := outputs
              story := session.story ++ [.printed output.flatten] } :=
        { captures with
          outputs := rfl
          exchanged := by
            simpa [List.filterMap_cons] using captures.exchanged
          small := fun other member =>
            small other (List.mem_cons_of_mem _ member) }
      obtain ⟨_, after, returns, captured⟩ :=
        silent_output (by simpa using fits) _ _ begun
      simp only [runCommand, Session.printed, Session.happen, bind_apply,
        read_apply, same, isOutputs, modify_apply, returns, pure_apply,
        Together]
      simpa using captured

/-- What `popen_get` hands out. -/
theorem silent_popenGet {output : List Byte} :
    Silent (Captures owned output) popenGet
      fun result => CapturedAt owned result output := by
  intro state session captures
  refine ⟨_, _, rfl, state.popen.data,
    ⟨captures.apart, captures.holds.size, ?_, fun isNull => ?_⟩,
    { captures with
      backed := captures.backed, empty := rfl, noData := rfl }⟩
  · rw [← captures.holds.size]
    exact captures.holds.contents
  · have block := captures.holds.block
    rw [captures.null isNull] at block
    exact List.length_eq_zero_iff.mp block

/-- `my_popen` runs the command of the session. -/
theorem simulates_myPopen (argv : List (List Byte)) :
    Simulates (Shows owned) (myPopen 0 0 argv) (Session.command argv)
      (CapturedAt owned) Alike := by
  have observes :
      Simulates (Shows owned) (observe (.popen 0 0 argv))
        (Session.happen (.ran argv)) (fun _ _ => Shows owned) Alike :=
    fun state session shows =>
      { shows with
        exchanged := by simp [shows.exchanged] }
  refine observes.bind fun _ _ => ?_
  rw [if_neg (by simp)]
  have begins :
      Silent (Shows owned)
        (modify fun state : AppState => { state with
          popen := { state.popen with isInPopen := true } } : App Unit)
        fun _ => Captures owned [] := by
    intro state session shows
    refine ⟨(), _, rfl, { shows with
      holds := ?_, apart := ?_, backed := ?_, null := ?_ }⟩
    · have holds : state.popen.Holds [] := by
        rw [shows.empty]
        exact Popen.holds_empty
      exact { holds with }
    · show owned state.popenData = none
      rw [shows.noData]
      exact shows.backed.null
    · show (owned.place state.popenData _).Backed _ _
      rw [shows.noData, Owned.place_null]
      exact shows.backed
    · intro _
      show state.popen.cap = 0
      rw [shows.empty]
      rfl
  exact Simulates.silently begins fun _ =>
    simulates_runCommand.quietly fun _ _ => silent_popenGet

end Commands

end App

end Hamachi
