import Hamachi.GlueDevices
import Hamachi.Runs

namespace Hamachi

/-!
# The interest set of the epoll instance

Linux epoll keeps, for each registered descriptor, the event of the latest
`ADD` or `MOD`.  The emulation spreads that map over three descriptor sets and
an array of data words.
-/

/-- What Linux epoll would hold: the latest event of each descriptor. -/
abbrev Registry := Int → Option EpollEvent

/-- One `epoll_ctl` call on the epoll instance. -/
inductive EpollCall where
  | add (fd : Int) (event : EpollEvent)
  | mod (fd : Int) (event : EpollEvent)
  | del (fd : Int) (event : EpollEvent)
  deriving DecidableEq

namespace EpollCall

/-- `fd2`. -/
def fd : EpollCall → Int
  | .add fd _ => fd
  | .mod fd _ => fd
  | .del fd _ => fd

/-- `op`. -/
def op : EpollCall → Int
  | .add _ _ => epollCtlAdd
  | .mod _ _ => epollCtlMod
  | .del _ _ => epollCtlDel

/-- `e`. -/
def event : EpollCall → EpollEvent
  | .add _ event => event
  | .mod _ event => event
  | .del _ event => event

/-- The event registered for `fd` once Linux has accepted the call. -/
def registered : EpollCall → Option EpollEvent
  | .add _ event => some event
  | .mod _ event => some event
  | .del _ _ => none

/-- Linux accepts the call: `ADD` of a new descriptor, `MOD` and `DEL` of a
registered one. -/
def Accepted (registry : Registry) (call : EpollCall) : Prop :=
  0 ≤ call.fd ∧ call.fd < fdSetSize ∧
    match call with
    | .add fd _ => registry fd = none
    | .mod fd _ => registry fd ≠ none
    | .del fd _ => registry fd ≠ none

/-- A `MOD` keeps all three flags. -/
def KeepsFlags : EpollCall → Prop
  | .mod _ event =>
      event.has epollIn ∧ event.has epollOut ∧ event.has epollErr
  | _ => True

instance : DecidablePred KeepsFlags
  | .mod _ _ => inferInstanceAs (Decidable (_ ∧ _))
  | .add _ _ => .isTrue trivial
  | .del _ _ => .isTrue trivial

end EpollCall

/-- The registry after an accepted call. -/
def Registry.after (registry : Registry) (call : EpollCall) : Registry :=
  Function.update registry call.fd call.registered

/-- Perform calls in order on the epoll instance. -/
def epollCalls : Glue → List EpollCall → Except Fault Glue
  | glue, [] => .ok glue
  | glue, call :: rest => do
      let (glue, _) ←
        glue.implEpollCtl epollFd call.op call.fd call.event
      epollCalls glue rest

/-- A descriptor set holds the registered descriptors with a flag. -/
def HoldsFlag
    (registry : Registry)
    (flag : BitVec 32)
    (set : Finset Int) : Prop :=
  ∀ fd, fd ∈ set ↔ ∃ event, registry fd = some event ∧ event.has flag

/-- The static variables hold exactly the registry. -/
structure Agrees (glue : Glue) (registry : Registry) : Prop where
  readable : HoldsFlag registry epollIn glue.epollIn
  writable : HoldsFlag registry epollOut glue.epollOut
  failed : HoldsFlag registry epollErr glue.epollErr
  data :
    ∀ fd event, registry fd = some event →
      glue.epollPerFdData fd = event.data

/-- After each of the calls the statics agree with the registry. -/
def TracksInterest (glue : Glue) (calls : List EpollCall) : Prop :=
  ∀ leading, leading <+: calls →
    ∃ reached,
      epollCalls glue leading = .ok reached ∧
        Agrees reached (leading.foldl Registry.after fun _ => none)

/-- Setting the flag of an event makes a set hold the new registration. -/
theorem HoldsFlag.register
    {registry : Registry}
    {flag : BitVec 32}
    {set : Finset Int}
    {fd : Int}
    {event : EpollEvent}
    (holds : HoldsFlag registry flag set)
    (kept : fd ∈ set → event.has flag) :
    HoldsFlag (Function.update registry fd (some event)) flag
      (setIf (event.has flag) fd set) := by
  intro other
  by_cases same : other = fd
  · subst same
    cases has : event.has flag <;> simp_all [setIf]
  · rw [Function.update_of_ne same, ← holds other]
    cases event.has flag <;> simp [setIf, same]

/-- Clearing a descriptor makes a set hold the deregistration. -/
theorem HoldsFlag.erase
    {registry : Registry}
    {flag : BitVec 32}
    {set : Finset Int}
    (holds : HoldsFlag registry flag set)
    (fd : Int) :
    HoldsFlag (Function.update registry fd none) flag (set.erase fd) := by
  intro other
  by_cases same : other = fd
  · subst same
    simp
  · rw [Function.update_of_ne same, ← holds other]
    simp [same]

/-- The effect of an accepted call on the statics. -/
def EpollCall.effect (call : EpollCall) (glue : Glue) : Glue :=
  match call with
  | .add fd event =>
      { glue.setFlags fd event with
        epollPerFdData :=
          Function.update glue.epollPerFdData fd event.data }
  | .mod fd event =>
      { (glue.setMissing fd event).setFlags fd event with
        epollPerFdData :=
          Function.update glue.epollPerFdData fd event.data }
  | .del fd _ =>
      glue.clearFlags fd

/-- On the epoll instance an accepted call returns normally. -/
theorem implEpollCtl_accepted
    {glue : Glue}
    {registry : Registry}
    {call : EpollCall}
    (created : glue.epollRs ≠ 0)
    (accepted : call.Accepted registry) :
    glue.implEpollCtl epollFd call.op call.fd call.event =
      .ok (call.effect glue, 0) := by
  obtain ⟨low, high, _⟩ := accepted
  unfold Glue.implEpollCtl
  rw [if_neg (by simp [created])]
  cases call with
  | add fd event =>
      rw [if_pos (.inl rfl), if_pos ⟨low, high⟩]
      rfl
  | mod fd event =>
      rw [if_pos (.inr rfl), if_pos ⟨low, high⟩]
      rfl
  | del fd event =>
      rw [if_neg (by simp [EpollCall.op, epollCtlAdd, epollCtlDel,
          epollCtlMod]),
        if_pos (show (EpollCall.del fd event).op = epollCtlDel from rfl),
        if_pos ⟨low, high⟩]
      rfl

/-- The data word of a new registration. -/
theorem data_update
    {registry : Registry}
    {data : Int → BitVec 64}
    (same : ∀ fd event, registry fd = some event → data fd = event.data)
    (fd : Int)
    (event : EpollEvent) :
    ∀ other found,
      Function.update registry fd (some event) other = some found →
        Function.update data fd event.data other = found.data := by
  intro other found isFound
  by_cases isFd : other = fd
  · subst isFd
    rw [Function.update_self] at isFound ⊢
    rw [Option.some.inj isFound]
  · rw [Function.update_of_ne isFd] at isFound ⊢
    exact same other found isFound

/-- An accepted call that keeps its flags keeps the agreement. -/
theorem Agrees.effect
    {glue : Glue}
    {registry : Registry}
    {call : EpollCall}
    (agrees : Agrees glue registry)
    (accepted : call.Accepted registry)
    (keeps : call.KeepsFlags) :
    Agrees (call.effect glue) (registry.after call) := by
  cases call with
  | add fd event =>
      have isNew : registry fd = none := accepted.2.2
      have absent
          {flag : BitVec 32}
          {set : Finset Int}
          (holds : HoldsFlag registry flag set) :
          fd ∈ set → event.has flag := by
        intro member
        obtain ⟨_, found, _⟩ := (holds fd).mp member
        rw [isNew] at found
        cases found
      exact {
        readable := agrees.readable.register (absent agrees.readable)
        writable := agrees.writable.register (absent agrees.writable)
        failed := agrees.failed.register (absent agrees.failed)
        data := data_update agrees.data fd event
      }
  | mod fd event =>
      obtain ⟨hasIn, hasOut, hasErr⟩ := keeps
      have unchanged : glue.setMissing fd event = glue := by
        simp [Glue.setMissing, setIf, hasIn, hasOut, hasErr]
      simp only [EpollCall.effect, unchanged]
      exact {
        readable := agrees.readable.register fun _ => hasIn
        writable := agrees.writable.register fun _ => hasOut
        failed := agrees.failed.register fun _ => hasErr
        data := data_update agrees.data fd event
      }
  | del fd event =>
      exact {
        readable := agrees.readable.erase fd
        writable := agrees.writable.erase fd
        failed := agrees.failed.erase fd
        data := by
          intro other found isFound
          by_cases isFd : other = fd
          · subst isFd
            simp [Registry.after, EpollCall.fd, EpollCall.registered]
              at isFound
          · refine agrees.data other found ?_
            simpa [Registry.after, EpollCall.fd, EpollCall.registered, isFd]
              using isFound
      }

/-- After `MOD` a set holds the registration only if the event has the flag. -/
theorem HoldsFlag.has_of_mod
    {registry : Registry}
    {flag : BitVec 32}
    {set : Finset Int}
    {fd : Int}
    {event : EpollEvent}
    (holds :
      HoldsFlag (Function.update registry fd (some event)) flag
        (setIf (event.has flag) fd
          (setIf (!event.has flag) fd set))) :
    event.has flag := by
  by_contra lacks
  have member := (holds fd).mp (by simp [setIf, lacks])
  rw [Function.update_self] at member
  obtain ⟨found, isFound, has⟩ := member
  rw [← Option.some.inj isFound] at has
  exact lacks has

/-- A `MOD` that leaves out a flag breaks the agreement. -/
theorem keepsFlags_of_agrees
    {glue : Glue}
    {registry : Registry}
    {call : EpollCall}
    (agrees : Agrees (call.effect glue) (registry.after call)) :
    call.KeepsFlags := by
  cases call with
  | add fd event =>
      trivial
  | mod fd event =>
      exact ⟨agrees.readable.has_of_mod, agrees.writable.has_of_mod,
        agrees.failed.has_of_mod⟩
  | del fd event =>
      trivial

/-- A call leaves the epoll instance in place. -/
theorem EpollCall.effect_epollRs
    (call : EpollCall)
    (glue : Glue) :
    (call.effect glue).epollRs = glue.epollRs := by
  cases call <;> rfl

/-- Linux accepts every call of a sequence. -/
def AllAccepted : Registry → List EpollCall → Prop
  | _, [] => True
  | registry, call :: rest =>
      call.Accepted registry ∧ AllAccepted (registry.after call) rest

/-- A run of calls from a state that agrees with a registry. -/
theorem epollCalls_agrees_iff
    {glue : Glue}
    {registry : Registry}
    {calls : List EpollCall}
    (created : glue.epollRs ≠ 0)
    (agrees : Agrees glue registry)
    (accepted : AllAccepted registry calls) :
    (∀ leading, leading <+: calls →
      ∃ reached,
        epollCalls glue leading = .ok reached ∧
          Agrees reached (leading.foldl Registry.after registry)) ↔
      ∀ call ∈ calls, call.KeepsFlags := by
  induction calls generalizing glue registry with
  | nil =>
      simp only [List.prefix_nil, forall_eq, List.not_mem_nil,
        false_implies, implies_true, iff_true]
      exact ⟨glue, rfl, agrees⟩
  | cons call rest inductionHypothesis =>
      obtain ⟨callAccepted, restAccepted⟩ := accepted
      have performs := implEpollCtl_accepted created callAccepted
      have stillCreated : (call.effect glue).epollRs ≠ 0 := by
        rwa [call.effect_epollRs]
      have unfolds (leading : List EpollCall) :
          epollCalls glue (call :: leading) =
            epollCalls (call.effect glue) leading := by
        rw [epollCalls, performs]
        rfl
      constructor
      · intro tracks
        have first : call.KeepsFlags := by
          obtain ⟨reached, reaches, agreement⟩ := tracks [call] (by simp)
          rw [unfolds] at reaches
          cases reaches
          exact keepsFlags_of_agrees agreement
        refine List.forall_mem_cons.mpr ⟨first, ?_⟩
        refine (inductionHypothesis stillCreated
          (agrees.effect callAccepted first) restAccepted).mp ?_
        intro leading isPrefix
        obtain ⟨reached, reaches, agreement⟩ :=
          tracks (call :: leading)
            ((List.prefix_cons_inj call).mpr isPrefix)
        exact ⟨reached, unfolds leading ▸ reaches, agreement⟩
      · intro keeps
        obtain ⟨first, later⟩ := List.forall_mem_cons.mp keeps
        have tracks := (inductionHypothesis stillCreated
          (agrees.effect callAccepted first) restAccepted).mpr later
        intro leading isPrefix
        cases leading with
        | nil =>
            exact ⟨glue, rfl, agrees⟩
        | cons head tail =>
            obtain ⟨rfl, tailPrefix⟩ := List.cons_prefix_cons.mp isPrefix
            obtain ⟨reached, reaches, agreement⟩ := tracks tail tailPrefix
            exact ⟨reached, (unfolds tail).trans reaches, agreement⟩

/-- A created epoll instance is in place and has nothing registered. -/
theorem implEpollCreate_agrees
    {process created : Process}
    {buf : Addr}
    {junk : Resource Finaliser Payload}
    {fd : Int}
    (creates : process.implEpollCreate buf junk = .ok (created, fd)) :
    created.glue.epollRs ≠ 0 ∧ Agrees created.glue fun _ => none := by
  unfold Process.implEpollCreate at creates
  split at creates
  · cases creates
  · obtain ⟨⟨allocated, h⟩, allocates, isCreated⟩ :=
      bind_eq_ok.mp creates
    cases isCreated
    obtain ⟨isHandle, _⟩ := Process.alloc_completed allocates
    refine ⟨isHandle ▸ handleOf_ne_null buf, ?_, ?_, ?_, ?_⟩
    · intro other
      simp
    · intro other
      simp
    · intro other
      simp
    · intro other event isSome
      cases isSome

/-- After `epoll_create` the statics follow the registry through every
accepted sequence of calls exactly when every `MOD` keeps all three flags. -/
theorem tracksInterest_iff_keepsFlags
    {process created : Process}
    {buf : Addr}
    {junk : Resource Finaliser Payload}
    {fd : Int}
    (creates : process.implEpollCreate buf junk = .ok (created, fd))
    {calls : List EpollCall}
    (accepted : AllAccepted (fun _ => none) calls) :
    TracksInterest created.glue calls ↔
      ∀ call ∈ calls, call.KeepsFlags := by
  obtain ⟨inPlace, agrees⟩ := implEpollCreate_agrees creates
  exact epollCalls_agrees_iff inPlace agrees accepted

/-- A `MOD` that keeps all three flags. -/
theorem tracksInterest_keepsFlags :
    ∃ created fd,
      Process.initial.implEpollCreate 4096 freshBlock =
          .ok (created, fd) ∧
        (TracksInterest created.glue
            [.add 3 ⟨0xd, 7⟩, .mod 3 ⟨0xd, 8⟩, .del 3 ⟨0, 0⟩] ↔
          ∀ call ∈
              [EpollCall.add 3 ⟨0xd, 7⟩, .mod 3 ⟨0xd, 8⟩, .del 3 ⟨0, 0⟩],
            call.KeepsFlags) :=
  ⟨_, _, rfl,
    tracksInterest_iff_keepsFlags
      (show Process.initial.implEpollCreate 4096 freshBlock = .ok (_, _)
        from rfl)
      ⟨⟨by decide, by decide, rfl⟩, ⟨by decide, by decide, by decide⟩,
        ⟨by decide, by decide, by decide⟩, trivial⟩⟩

/-- A `MOD` to read events alone leaves the descriptor waiting for writes. -/
theorem not_tracksInterest :
    ¬ ∀ (process created : Process)
      (buf : Addr)
      (junk : Resource Finaliser Payload)
      (fd : Int)
      (calls : List EpollCall),
      process.implEpollCreate buf junk = .ok (created, fd) →
        AllAccepted (fun _ => none) calls →
          TracksInterest created.glue calls := by
  intro tracks
  have accepted :
      AllAccepted (fun _ => none) [.add 3 ⟨0x1, 7⟩, .mod 3 ⟨0x1, 7⟩] :=
    ⟨⟨by decide, by decide, rfl⟩, ⟨by decide, by decide, by decide⟩,
      trivial⟩
  have creates :
      Process.initial.implEpollCreate 4096 freshBlock = .ok (_, _) := rfl
  obtain ⟨inPlace, agrees⟩ := implEpollCreate_agrees creates
  have keeps := (epollCalls_agrees_iff inPlace agrees accepted).mp
    (tracks _ _ _ _ _ _ creates accepted)
  exact absurd keeps (by decide)

end Hamachi
