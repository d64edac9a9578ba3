import Hamachi.GlueFrames

namespace Hamachi

/-!
# Opens that the host refuses

A call whose `open`, `socket` or `fopen` fails must not register anything: what
it registers is closed again by `resource_collect`.  `impl_socket` tests the
answer first; `impl_open64` indexes the table with it, and `impl_fopen64` hands
the null stream of a log that it cannot open to `setvbuf`.
-/

/-- A call that asks the host for a descriptor or a stream. -/
inductive OpenCall where
  | open64 (path : String) (flags mode : Nat)
  | socket (domain type protocol : Int)
  | fopen64 (path mode : String)

namespace OpenCall

/-- The call gets as far as the host; an open log is handed out without it. -/
def AsksHost (process : Process) : OpenCall → Prop
  | .fopen64 path _ => path = linuxLogPath → process.glue.logHandle = 0
  | _ => True

/-- The value that reports a failure. -/
def failure : OpenCall → Int
  | .open64 .. => -1
  | .socket .. => -1
  | .fopen64 .. => 0

/-- The call when the host refuses. -/
def refused
    (process : Process)
    (buf : Addr)
    (junk : Resource Finaliser Payload) :
    OpenCall → Except Fault (Process × Int)
  | .open64 path flags mode =>
      process.implOpen64 path flags mode (-1) buf junk
  | .socket domain type protocol =>
      process.implSocket domain type protocol (-1) buf junk
  | .fopen64 path mode => do
      let (process, f) ← process.implFopen64 path mode 0 buf junk
      return (process, f)

/-- The call tests the host's answer before it uses it. -/
def TestsAnswer : OpenCall → Prop
  | .open64 .. => False
  | .socket .. => True
  | .fopen64 path _ => path ≠ linuxLogPath

end OpenCall

/-- Nothing is registered, and an exit makes the same host calls as without the
call. -/
structure LeavesIntact (process next : Process) : Prop where
  handles : next.handles = process.handles
  perFdResources : next.glue.perFdResources = process.glue.perFdResources
  logHandle : next.glue.logHandle = process.glue.logHandle
  collects :
    ∀ final, next.implExit = .ok final →
      ∃ last closes,
        process.implExit = .ok last ∧
          last.glue.host.trace = process.glue.host.trace ++ closes ∧
          final.glue.host.trace = next.glue.host.trace ++ closes

namespace Glue

/-- The changed statics differ by host calls. -/
structure Extends
    (glue changed : Glue)
    (calls : List HostCall) : Prop where
  logHandle : changed.logHandle = glue.logHandle
  trace : changed.host.trace = glue.host.trace ++ calls

namespace Extends

variable {glue middle changed : Glue}

theorem refl (glue : Glue) : Extends glue glue [] :=
  ⟨rfl, (List.append_nil _).symm⟩

theorem trans
    {first later : List HostCall}
    (toMiddle : Extends glue middle first)
    (toChanged : Extends middle changed later) :
    Extends glue changed (first ++ later) where
  logHandle := toChanged.logHandle.trans toMiddle.logHandle
  trace := by
    rw [toChanged.trace, toMiddle.trace, List.append_assoc]

end Extends

variable {glue other changed : Glue}

/-- A finaliser makes the host calls that its resource and the log ask for. -/
theorem finalise_alike
    {free : Finaliser}
    {h : Addr}
    {payload : Payload}
    (sameLog : other.logHandle = glue.logHandle)
    (finalises : finalise free h payload glue = .ok changed) :
    ∃ alike calls,
      finalise free h payload other = .ok alike ∧
        Extends glue changed calls ∧
        Extends other alike calls := by
  unfold finalise at finalises
  split at finalises
  · cases finalises
    exact ⟨_, [], rfl, .refl _, .refl _⟩
  · rename_i fd
    cases finalises
    exact ⟨_, [.close fd], rfl, ⟨rfl, rfl⟩, ⟨rfl, rfl⟩⟩
  · rename_i fp
    split at finalises
    · rename_i closes
      cases finalises
      exact
        ⟨{ other with host := other.host.records (.fclose fp) },
          [.fclose fp], if_pos (sameLog ▸ closes), ⟨rfl, rfl⟩, ⟨rfl, rfl⟩⟩
    · rename_i keeps
      cases finalises
      exact ⟨other, [], if_neg (sameLog ▸ keeps), .refl _, .refl _⟩
  · cases finalises
    exact ⟨_, [], rfl, ⟨rfl, (List.append_nil _).symm⟩,
      ⟨rfl, (List.append_nil _).symm⟩⟩
  · cases finalises

/-- The collection of a list makes host calls that depend on the list and the
log only. -/
theorem collectLoop_alike
    {fuel : Nat}
    {handles collected : Handles Finaliser Payload}
    (sameLog : other.logHandle = glue.logHandle)
    (collects :
      handles.collectLoop runtime fuel glue = .ok (collected, changed)) :
    ∃ alike calls,
      handles.collectLoop runtime fuel other = .ok (collected, alike) ∧
        Extends glue changed calls ∧
        Extends other alike calls := by
  induction fuel generalizing handles glue other with
  | zero =>
      unfold Handles.collectLoop at collects ⊢
      split at collects
      · rename_i isEmpty
        cases collects
        rw [if_pos isEmpty]
        exact ⟨_, [], rfl, .refl _, .refl _⟩
      · cases collects
  | succ fuel inductionHypothesis =>
      unfold Handles.collectLoop at collects ⊢
      split at collects
      · rename_i isEmpty
        cases collects
        rw [if_pos isEmpty]
        exact ⟨_, [], rfl, .refl _, .refl _⟩
      · rename_i notEmpty
        rw [if_neg notEmpty]
        obtain ⟨block, loaded, rest⟩ := bind_eq_ok.mp collects
        simp only [loaded, ok_bind]
        split at rest
        · cases rest
        · rename_i isMagic
          rw [if_neg isMagic]
          obtain ⟨middle, finalises, rest⟩ := bind_eq_ok.mp rest
          obtain ⟨middleAlike, first, finalisesAlike, toMiddle,
              toMiddleAlike⟩ :=
            finalise_alike sameLog finalises
          obtain ⟨_, reloaded, rest⟩ := bind_eq_ok.mp rest
          cases loaded.symm.trans reloaded
          obtain ⟨heap, releases, loops⟩ := bind_eq_ok.mp rest
          have sameMiddle :
              middleAlike.logHandle = middle.logHandle := by
            rw [toMiddleAlike.logHandle, toMiddle.logHandle, sameLog]
          obtain ⟨alike, later, loopsAlike, toChanged, toAlike⟩ :=
            inductionHypothesis sameMiddle loops
          refine ⟨alike, first ++ later, ?_, toMiddle.trans toChanged,
            toMiddleAlike.trans toAlike⟩
          refine bind_eq_ok.mpr ⟨middleAlike, finalisesAlike, ?_⟩
          simp only [ok_bind, releases]
          exact loopsAlike

end Glue

/-- Processes with the same resources and the same log exit alike. -/
theorem Process.implExit_alike
    {process next final : Process}
    (sameHandles : next.handles = process.handles)
    (sameLog : next.glue.logHandle = process.glue.logHandle)
    (sameThread : next.glue.isMainThread = process.glue.isMainThread)
    (exits : next.implExit = .ok final) :
    ∃ last closes,
      process.implExit = .ok last ∧
        last.glue.host.trace = process.glue.host.trace ++ closes ∧
        final.glue.host.trace = next.glue.host.trace ++ closes := by
  unfold Process.implExit at exits ⊢
  rw [sameThread, sameHandles] at exits
  split at exits
  · cases exits
  · rename_i mainThread
    rw [if_neg mainThread]
    obtain ⟨⟨handles, glue⟩, collects, isFinal⟩ := bind_eq_ok.mp exits
    cases isFinal
    obtain ⟨acquired, acquires, rest⟩ := bind_eq_ok.mp collects
    obtain ⟨⟨collected, changed⟩, loops, isCollected⟩ :=
      bind_eq_ok.mp rest
    cases isCollected
    obtain ⟨alike, closes, loopsAlike, toChanged, toAlike⟩ :=
      Glue.collectLoop_alike sameLog.symm loops
    refine
      ⟨{ handles := collected.unlock
         glue := { alike with isMainThread := false } },
        closes, ?_, toAlike.trace, toChanged.trace⟩
    unfold Handles.resourceCollect
    simp only [acquires, ok_bind, loopsAlike]

/-- A failed call that only asked the host left everything intact. -/
theorem leavesIntact_onHost
    (process : Process)
    (host : Host) :
    LeavesIntact process
      { process with glue := { process.glue with host := host } } where
  handles := rfl
  perFdResources := rfl
  logHandle := rfl
  collects _ exits := Process.implExit_alike rfl rfl rfl exits

/-- A call that the host refuses returns its failure value and leaves the state
intact exactly when it tests the answer: `impl_open64` never does, and
`impl_fopen64` does not for the log. -/
theorem leavesIntact_iff_testsAnswer
    {process : Process}
    {call : OpenCall}
    (asks : call.AsksHost process)
    (buf : Addr)
    (junk : Resource Finaliser Payload) :
    (∃ next,
        call.refused process buf junk = .ok (next, call.failure) ∧
          LeavesIntact process next) ↔
      call.TestsAnswer := by
  cases call with
  | open64 path flags mode =>
      refine ⟨?_, False.elim⟩
      rintro ⟨next, completes, _⟩
      obtain ⟨tracked, tracks, _⟩ := bind_eq_ok.mp completes
      have inRange := (Process.trackFd_completed tracks).1
      omega
  | socket domain type protocol =>
      exact ⟨fun _ => trivial,
        fun _ => ⟨_, rfl, leavesIntact_onHost process _⟩⟩
  | fopen64 path mode =>
      constructor
      · rintro ⟨next, completes, _⟩ isLog
        have stops :
            process.openStream path mode 0 = .error .nullPointer := by
          unfold Process.openStream
          rw [if_pos isLog, if_neg (not_not.mpr (asks isLog)), if_pos rfl]
        unfold OpenCall.refused Process.implFopen64 at completes
        simp only [stops, error_bind] at completes
        cases completes
      · intro notLog
        refine ⟨_, ?_, leavesIntact_onHost process
          (process.glue.host.records (.fopen (buildFakePath path) mode))⟩
        have opens :
            process.openStream path mode 0 =
              .ok ({ process with glue := { process.glue with
                host := process.glue.host.records
                  (.fopen (buildFakePath path) mode) } }, 0) := by
          unfold Process.openStream
          rw [if_neg notLog]
        unfold OpenCall.refused Process.implFopen64
        simp only [opens, ok_bind, if_true]
        rfl

/-- A socket that the host refuses. -/
theorem leavesIntact_socket :
    ∃ next,
      (OpenCall.socket 2 1 0).refused .initial 4096 freshBlock =
          .ok (next, -1) ∧
        LeavesIntact .initial next :=
  (@leavesIntact_iff_testsAnswer .initial (.socket 2 1 0) trivial 4096
    freshBlock).mpr trivial

/-- A file that the host cannot open, and a log. -/
theorem not_leavesIntact :
    ¬ ∀ (process : Process) (call : OpenCall) (buf : Addr)
      (junk : Resource Finaliser Payload),
      call.AsksHost process →
        ∃ next,
          call.refused process buf junk = .ok (next, call.failure) ∧
            LeavesIntact process next := by
  intro intact
  obtain ⟨next, completes, _⟩ :=
    intact .initial (.open64 "/etc/absent" 0 0) 4096 freshBlock trivial
  cases completes

end Hamachi
