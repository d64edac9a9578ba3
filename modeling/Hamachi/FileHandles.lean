import Hamachi.Glue
import Hamachi.ResourceCollection
import Hamachi.ResourceRemoval
import Hamachi.Runs

namespace Hamachi

/-!
# The files of the Linux program

`impl_fopen64` wraps every `FILE*` of the host in a handle, and the log in one
handle for each time it is opened.  A file can be closed by `impl_fclose`, by the
finaliser of its handle and by the collection at exit.  The history of a run
says which files the host opened and closed.
-/

/-- The host opens or closes a file. -/
inductive FileEvent where
  | opened (fp : Addr)
  | closed (fp : Addr)
  deriving DecidableEq

/-- The file of an event. -/
def FileEvent.file : FileEvent → Addr
  | .opened fp => fp
  | .closed fp => fp

/-- What a call of the host means for its files, when `fopen` returns `fp`. -/
def HostCall.fileEvent (fp : Addr) : HostCall → Option FileEvent
  | .fopen _ _ => some (.opened fp)
  | .fclose closed => some (.closed closed)
  | _ => none

/-- What happened to one file. -/
def eventsOf (fp : Addr) (history : List FileEvent) : List FileEvent :=
  history.filter fun event => event.file = fp

/-- The file has been opened and not closed since. -/
def IsOpen (fp : Addr) (history : List FileEvent) : Prop :=
  (eventsOf fp history).getLast? = some (.opened fp)

instance (fp : Addr) (history : List FileEvent) :
    Decidable (IsOpen fp history) :=
  inferInstanceAs (Decidable (_ = _))

/-- A file opened and closed a number of times. -/
def openedAndClosed (fp : Addr) (times : Nat) : List FileEvent :=
  (List.replicate times [.opened fp, .closed fp]).flatten

/-- Whenever the host has opened a file, it has closed it once before it opened
it again; the file is open at the end if it is to be. -/
def Settles (history : List FileEvent) (fp : Addr) (stillOpen : Prop) : Prop :=
  ∃ times,
    stillOpen ∧
        eventsOf fp history = openedAndClosed fp times ++ [.opened fp] ∨
      ¬ stillOpen ∧ eventsOf fp history = openedAndClosed fp times

namespace Process

/-- `impl_fclose`, with a removal for `resource_free`. -/
def fcloseRemoving
    (process : Process)
    (f : Addr)
    (result : Int) :
    Except Fault (Process × Int) := do
  let block ← process.handles.heap.load (resourceOf f)
  match block.payload with
  | .file fp =>
      let (process, ans) ← process.closeStream fp result
      let process ← process.storePayload f (.file 0)
      let process ← process.remove f
      .ok (process, ans)
  | _ => .error .invalidPointer

end Process

/-- A call on files; the host's `fopen` returns `fp`. -/
inductive FileCall where
  | fopen64
      (path mode : String) (fp : Addr)
      (buf : Addr) (junk : Resource Finaliser Payload)
  | fclose (f : Addr) (result : Int)

/-- A process and the history of the host's files. -/
structure FileRun where
  process : Process
  history : List FileEvent

namespace FileRun

/-- A process at program start. -/
def initial : FileRun where
  process := .initial
  history := []

/-- The history goes on with the calls that the host has received. -/
def continues (run : FileRun) (fp : Addr) (process : Process) : FileRun where
  process := process
  history :=
    run.history ++
      (process.glue.host.trace.drop
        run.process.glue.host.trace.length).filterMap
          (HostCall.fileEvent fp)

/-- Perform a call. -/
def perform (run : FileRun) : FileCall → Except Fault FileRun
  | .fopen64 path mode fp buf junk => do
      let (process, _) ← run.process.implFopen64 path mode fp buf junk
      .ok (run.continues fp process)
  | .fclose f result => do
      let (process, _) ← run.process.fcloseRemoving f result
      .ok (run.continues 0 process)

/-- `impl_exit`. -/
def exit (run : FileRun) : Except Fault FileRun := do
  let process ← run.process.implExit
  .ok (run.continues 0 process)

/-- Where the host's `fopen` is called, it succeeds with a file that is not
open; `malloc` succeeds; and a handle that is closed is live. -/
def Permits (run : FileRun) : FileCall → Prop
  | .fopen64 path _ fp buf _ =>
      (path = linuxLogPath → run.process.glue.logHandle = 0 →
        fp ≠ 0 ∧ ¬ IsOpen fp run.history) ∧
      (path ≠ linuxLogPath → fp ≠ 0 ∧ ¬ IsOpen fp run.history) ∧
      run.process.handles.heap.Available buf
  | .fclose f _ =>
      ∃ buf ∈ run.process.handles.heap.live, f = handleOf buf

/-- A permitted call that completes. -/
def Step (run : FileRun) (call : FileCall) (next : FileRun) : Prop :=
  run.Permits call ∧ run.perform call = .ok next

end FileRun

section Events

variable
  {fp other : Addr}
  {history later : List FileEvent}
  {stillOpen : Prop}

theorem eventsOf_append :
    eventsOf fp (history ++ later) =
      eventsOf fp history ++ eventsOf fp later :=
  List.filter_append ..

theorem openedAndClosed_succ (times : Nat) :
    openedAndClosed fp (times + 1) =
      openedAndClosed fp times ++ [.opened fp, .closed fp] := by
  simp [openedAndClosed, List.replicate_succ']

/-- An open file is one that is to be open. -/
theorem Settles.isOpen_iff
    (settles : Settles history fp stillOpen) :
    IsOpen fp history ↔ stillOpen := by
  obtain ⟨times, ⟨isOpen, events⟩ | ⟨notOpen, events⟩⟩ := settles
  · refine iff_of_true ?_ isOpen
    rw [IsOpen, events, List.getLast?_concat]
  · refine iff_of_false ?_ notOpen
    rw [IsOpen, events]
    cases times with
    | zero =>
        intro isOpen
        cases isOpen
    | succ times =>
        rw [openedAndClosed_succ, List.append_cons, List.getLast?_concat]
        intro isOpen
        cases isOpen

/-- Events of other files do not matter to a file. -/
theorem Settles.others
    (settles : Settles history fp stillOpen)
    (others : ∀ event ∈ later, event.file ≠ fp) :
    Settles (history ++ later) fp stillOpen := by
  have none : eventsOf fp later = [] := by
    simpa [eventsOf, List.filter_eq_nil_iff] using others
  unfold Settles
  rw [eventsOf_append, none, List.append_nil]
  exact settles

/-- A file that was not open has been opened. -/
theorem Settles.open
    (settles : Settles history fp stillOpen)
    (notOpen : ¬ stillOpen) :
    Settles (history ++ [.opened fp]) fp True := by
  obtain ⟨times, ⟨isOpen, _⟩ | ⟨_, events⟩⟩ := settles
  · exact absurd isOpen notOpen
  · refine ⟨times, .inl ⟨trivial, ?_⟩⟩
    rw [eventsOf_append, events]
    simp [eventsOf, FileEvent.file]

/-- A file that was open has been closed. -/
theorem Settles.close
    (settles : Settles history fp stillOpen)
    (isOpen : stillOpen)
    (closes : eventsOf fp later = [.closed fp]) :
    Settles (history ++ later) fp False := by
  obtain ⟨times, ⟨_, events⟩ | ⟨notOpen, _⟩⟩ := settles
  · refine ⟨times + 1, .inr ⟨not_false, ?_⟩⟩
    rw [eventsOf_append, events, openedAndClosed_succ, closes,
      List.append_assoc]
    rfl
  · exact absurd isOpen notOpen

/-- Of files that are closed once each, one file sees its own. -/
theorem eventsOf_closed
    {files : List Addr}
    (distinct : files.Nodup)
    (member : fp ∈ files) :
    eventsOf fp (files.map .closed) = [.closed fp] := by
  have alone : files.filter (· = fp) = [fp] := by
    rw [List.filter_eq, List.count_eq_one_of_mem distinct member]
    rfl
  rw [eventsOf, List.filter_map]
  change (files.filter fun file => decide (file = fp)).map _ = _
  rw [alone]
  rfl

theorem Settles.congr
    {stillOpen' : Prop}
    (settles : Settles history fp stillOpen)
    (same : stillOpen ↔ stillOpen') :
    Settles history fp stillOpen' := by
  rwa [Settles, ← same]

end Events

/-- A handle that wraps a file. -/
structure Wrapper where
  block : Addr
  fp : Addr

/-- The resource of a wrapper. -/
def Wrapper.resource (wrapper : Wrapper) :
    Handles.Tracked Finaliser Payload where
  block := wrapper.block
  free := .resFile
  payload := .file wrapper.fp

/-- The files of some wrappers. -/
def filesOf (wrappers : List Wrapper) : List Addr :=
  wrappers.map Wrapper.fp

/-- The files that the collection closes. -/
def closedFiles (logHandle : Addr) (wrappers : List Wrapper) : List Addr :=
  (filesOf wrappers).filter fun fp => fp ≠ logHandle

namespace FileRun

/-- The live resources are the wrappers.  Each open file but the log has one of
them, and the open files are those of the wrappers and the log. -/
structure Accounts (run : FileRun) (wrappers : List Wrapper) : Prop where
  represents :
    run.process.handles.Represents (wrappers.map Wrapper.resource)
  mainThread : run.process.glue.isMainThread = true
  nonNull : 0 ∉ filesOf wrappers
  distinct : (closedFiles run.process.glue.logHandle wrappers).Nodup
  settles :
    ∀ fp, Settles run.history fp
      (fp ∈ filesOf wrappers ∨
        fp = run.process.glue.logHandle ∧ fp ≠ 0)

theorem initial_accounts : initial.Accounts [] where
  represents := Handles.represents_initial
  mainThread := rfl
  nonNull := List.not_mem_nil
  distinct := List.nodup_nil
  settles := by
    intro fp
    refine ⟨0, .inr ⟨?_, rfl⟩⟩
    rintro (member | ⟨isLog, notNull⟩)
    · cases member
    · exact notNull isLog

variable
  {run : FileRun}
  {wrappers : List Wrapper}

/-- The history goes on with the new calls only. -/
theorem continues_history
    {fp : Addr}
    {process : Process}
    {calls : List HostCall}
    (receives :
      process.glue.host.trace = run.process.glue.host.trace ++ calls) :
    (run.continues fp process).history =
      run.history ++ calls.filterMap (HostCall.fileEvent fp) := by
  rw [continues, receives, List.drop_left]

/-- A stream that is handed out gets a wrapper. -/
theorem wrap
    {process : Process}
    {buf : Addr}
    (represents :
      process.handles.Represents (wrappers.map Wrapper.resource))
    (available : process.handles.heap.Available buf)
    (junk : Resource Finaliser Payload)
    (fp : Addr) :
    ∃ middle next,
      process.alloc buf junk .resFile = .ok (middle, handleOf buf) ∧
        middle.storePayload (handleOf buf) (.file fp) = .ok next ∧
        next.glue = process.glue ∧
        next.handles.Represents
          ((Wrapper.mk buf fp :: wrappers).map Wrapper.resource) := by
  obtain ⟨allocated, allocates, tracked⟩ :=
    represents.resourceAlloc available junk .resFile
  obtain ⟨stored, stores, wrapped⟩ :=
    @Handles.Represents.storePayload _ _ _ [] _ _ tracked (.file fp)
  refine ⟨{ process with handles := allocated },
    { process with handles := stored }, ?_, ?_, rfl, wrapped⟩
  · rw [Process.alloc, allocates, ok_bind]
  · rw [Process.storePayload, stores, ok_bind]

/-- An open file is wrapped, or it is the log. -/
theorem Accounts.not_open
    (accounts : run.Accounts wrappers)
    {fp : Addr}
    (notOpen : ¬ IsOpen fp run.history) :
    fp ∉ filesOf wrappers ∧
      ¬ (fp = run.process.glue.logHandle ∧ fp ≠ 0) :=
  not_or.mp (mt (accounts.settles fp).isOpen_iff.mpr notOpen)

/-- A stream that the host opened, or the log, gets a wrapper; what is left to
show is about the files. -/
theorem Accounts.opens
    (accounts : run.Accounts wrappers)
    {path mode : String}
    {fp file buf : Addr}
    {junk : Resource Finaliser Payload}
    {opened : Process}
    {calls : List HostCall}
    (opens : run.process.openStream path mode fp = .ok (opened, file))
    (sameHandles : opened.handles = run.process.handles)
    (sameThread :
      opened.glue.isMainThread = run.process.glue.isMainThread)
    (receives :
      opened.glue.host.trace = run.process.glue.host.trace ++ calls)
    (nonNull : file ≠ 0)
    (available : run.process.handles.heap.Available buf)
    (distinct :
      (closedFiles opened.glue.logHandle (⟨buf, file⟩ :: wrappers)).Nodup)
    (settles :
      ∀ other,
        Settles (run.history ++ calls.filterMap (HostCall.fileEvent fp)) other
          (other ∈ filesOf (⟨buf, file⟩ :: wrappers) ∨
            other = opened.glue.logHandle ∧ other ≠ 0)) :
    ∃ next,
      run.perform (.fopen64 path mode fp buf junk) = .ok next ∧
        next.Accounts (⟨buf, file⟩ :: wrappers) := by
  have represents := accounts.represents
  rw [← sameHandles] at represents available
  obtain ⟨middle, next, allocates, stores, sameGlue, wrapped⟩ :=
    wrap represents available junk file
  rw [← sameGlue] at sameThread receives distinct settles
  refine ⟨run.continues fp next, ?_, wrapped, ?_, ?_, distinct, ?_⟩
  · simp only [perform, Process.implFopen64, opens, if_neg nonNull,
      allocates, stores, ok_bind]
  · exact sameThread.trans accounts.mainThread
  · exact List.not_mem_cons_of_ne_of_not_mem (Ne.symm nonNull)
      accounts.nonNull
  · rw [continues_history receives]
    exact settles

/-- A file of its own for every path but the log. -/
theorem Accounts.fopen64_other
    (accounts : run.Accounts wrappers)
    {path mode : String}
    {fp buf : Addr}
    {junk : Resource Finaliser Payload}
    (notLog : path ≠ linuxLogPath)
    (nonNull : fp ≠ 0)
    (notOpen : ¬ IsOpen fp run.history)
    (available : run.process.handles.heap.Available buf) :
    ∃ next,
      run.perform (.fopen64 path mode fp buf junk) = .ok next ∧
        next.Accounts (⟨buf, fp⟩ :: wrappers) := by
  have opens :
      run.process.openStream path mode fp =
        .ok (run.process.onHost (run.process.glue.host.records
          (.fopen (buildFakePath path) mode)), fp) := by
    rw [Process.openStream, if_neg notLog]
    rfl
  obtain ⟨notWrapped, notLogFile⟩ := accounts.not_open notOpen
  refine accounts.opens opens rfl rfl rfl nonNull available ?_ ?_
  · change (closedFiles run.process.glue.logHandle _).Nodup
    rw [closedFiles, filesOf, List.map_cons, List.filter_cons]
    split
    · refine List.nodup_cons.mpr ⟨fun member => ?_, accounts.distinct⟩
      exact notWrapped (List.mem_of_mem_filter member)
    · exact accounts.distinct
  · intro file
    change Settles (run.history ++ [.opened fp]) file
      (_ ∨ file = run.process.glue.logHandle ∧ file ≠ 0)
    by_cases same : file = fp
    · subst same
      refine ((accounts.settles file).open ?_).congr ?_
      · exact not_or.mpr ⟨notWrapped, notLogFile⟩
      · simp [filesOf]
    · refine ((accounts.settles file).others ?_).congr ?_
      · simpa [FileEvent.file] using Ne.symm same
      · simp [filesOf, same]

/-- Another wrapper for the log that is open already. -/
theorem Accounts.fopen64_log
    (accounts : run.Accounts wrappers)
    {mode : String}
    {fp buf : Addr}
    {junk : Resource Finaliser Payload}
    (logIsOpen : run.process.glue.logHandle ≠ 0)
    (available : run.process.handles.heap.Available buf) :
    ∃ next,
      run.perform (.fopen64 linuxLogPath mode fp buf junk) = .ok next ∧
        next.Accounts (⟨buf, run.process.glue.logHandle⟩ :: wrappers) := by
  have opens :
      run.process.openStream linuxLogPath mode fp =
        .ok (run.process, run.process.glue.logHandle) := by
    rw [Process.openStream, if_pos rfl, if_pos logIsOpen]
  refine accounts.opens opens rfl rfl (List.append_nil _).symm logIsOpen
    available ?_ ?_
  · rw [closedFiles, filesOf, List.map_cons,
      List.filter_cons_of_neg (by simp)]
    exact accounts.distinct
  · intro file
    rw [List.filterMap_nil, List.append_nil]
    refine (accounts.settles file).congr ?_
    by_cases isLog : file = run.process.glue.logHandle
    · simp [filesOf, isLog, logIsOpen]
    · simp [filesOf, isLog]

/-- The log is opened. -/
theorem Accounts.fopen64_firstLog
    (accounts : run.Accounts wrappers)
    {mode : String}
    {fp buf : Addr}
    {junk : Resource Finaliser Payload}
    (noLog : run.process.glue.logHandle = 0)
    (nonNull : fp ≠ 0)
    (notOpen : ¬ IsOpen fp run.history)
    (available : run.process.handles.heap.Available buf) :
    ∃ next,
      run.perform (.fopen64 linuxLogPath mode fp buf junk) = .ok next ∧
        next.Accounts (⟨buf, fp⟩ :: wrappers) := by
  have opens :
      run.process.openStream linuxLogPath mode fp =
        .ok ({ run.process with glue := { run.process.glue with
          logHandle := fp
          host := run.process.glue.host.records
            (.fopen (buildFakePath linuxLogPath) "w") } }, fp) := by
    rw [Process.openStream, if_pos rfl, if_neg (not_not.mpr noLog),
      if_neg nonNull]
  obtain ⟨notWrapped, _⟩ := accounts.not_open notOpen
  refine accounts.opens opens rfl rfl rfl nonNull available ?_ ?_
  · have all :
        closedFiles run.process.glue.logHandle wrappers =
          filesOf wrappers := by
      rw [noLog]
      refine List.filter_eq_self.mpr fun file member => ?_
      exact decide_eq_true fun isNull => accounts.nonNull (isNull ▸ member)
    have distinct := accounts.distinct
    rw [all] at distinct
    rw [closedFiles, filesOf, List.map_cons,
      List.filter_cons_of_neg (by simp)]
    exact distinct.sublist List.filter_sublist
  · intro file
    change Settles (run.history ++ [.opened fp]) file
      (_ ∨ file = fp ∧ file ≠ 0)
    by_cases same : file = fp
    · subst same
      refine ((accounts.settles file).open ?_).congr ?_
      · rintro (member | ⟨wasLog, _⟩)
        · exact notWrapped member
        · exact nonNull (wasLog.trans noLog)
      · simp [filesOf]
    · refine ((accounts.settles file).others ?_).congr ?_
      · simpa [FileEvent.file] using Ne.symm same
      · simp [filesOf, same, noLog]

/-- A wrapper that is emptied and removed leaves the host alone. -/
theorem unwrap
    {process : Process}
    {leading trailing : List Wrapper}
    {wrapper : Wrapper}
    (represents :
      process.handles.Represents
        ((leading ++ wrapper :: trailing).map Wrapper.resource)) :
    ∃ stored next,
      process.storePayload (handleOf wrapper.block) (.file 0) = .ok stored ∧
        stored.remove (handleOf wrapper.block) = .ok next ∧
        next.glue = process.glue ∧
        next.handles.Represents
          ((leading ++ trailing).map Wrapper.resource) := by
  rw [List.map_append, List.map_cons] at represents
  obtain ⟨emptied, stores, stillRepresents⟩ :=
    represents.storePayload (.file 0)
  obtain ⟨changed, removes, removed⟩ :=
    stillRepresents.resourceRemove runtime process.glue
  have nothing :
      Glue.finalise .resFile (handleOf wrapper.block) (.file 0)
        process.glue = .ok process.glue := by
    rw [Glue.finalise, if_neg fun both => both.1 rfl]
  have removesEmpty :
      emptied.resourceRemove runtime process.glue
        (handleOf wrapper.block) = .ok (changed, process.glue) := by
    refine removes.trans ?_
    change (Glue.finalise .resFile (handleOf wrapper.block) (.file 0)
      process.glue >>= _) = _
    rw [nothing]
    rfl
  refine ⟨{ process with handles := emptied },
    { process with handles := changed }, ?_, ?_, rfl, ?_⟩
  · have storesEmpty :
        process.handles.storePayload (handleOf wrapper.block) (.file 0) =
          .ok emptied := stores
    rw [Process.storePayload, storesEmpty, ok_bind]
  · rw [Process.remove, removesEmpty, ok_bind]
  · rwa [List.map_append]

/-- A stream that the host closed, or the log, loses a wrapper; what is left to
show is about the files. -/
theorem Accounts.closes
    {leading trailing : List Wrapper}
    {wrapper : Wrapper}
    (accounts : run.Accounts (leading ++ wrapper :: trailing))
    {closed : Process}
    {calls : List HostCall}
    {result ans : Int}
    (closes :
      run.process.closeStream wrapper.fp result = .ok (closed, ans))
    (sameHandles : closed.handles = run.process.handles)
    (sameThread :
      closed.glue.isMainThread = run.process.glue.isMainThread)
    (receives :
      closed.glue.host.trace = run.process.glue.host.trace ++ calls)
    (distinct :
      (closedFiles closed.glue.logHandle (leading ++ trailing)).Nodup)
    (settles :
      ∀ other,
        Settles (run.history ++ calls.filterMap (HostCall.fileEvent 0)) other
          (other ∈ filesOf (leading ++ trailing) ∨
            other = closed.glue.logHandle ∧ other ≠ 0)) :
    ∃ next,
      run.perform (.fclose (handleOf wrapper.block) result) = .ok next ∧
        next.Accounts (leading ++ trailing) := by
  have represents := accounts.represents
  rw [← sameHandles] at represents
  obtain ⟨stored, next, stores, removes, sameGlue, unwrapped⟩ :=
    unwrap represents
  rw [← sameGlue] at sameThread receives distinct settles
  have tracked := accounts.represents
  rw [List.map_append, List.map_cons] at tracked
  obtain ⟨following, loaded, _⟩ := tracked.load_block
  have loadedBlock :
      run.process.handles.heap.load wrapper.block =
        .ok {
          magic := magic
          next := following
          prev := Handles.exitLink .list (leading.map Wrapper.resource)
          free := .resFile
          payload := .file wrapper.fp
        } := loaded
  refine ⟨run.continues 0 next, ?_, unwrapped, ?_, ?_, distinct, ?_⟩
  · simp only [perform, Process.fcloseRemoving, resourceOf_handleOf,
      loadedBlock, closes, stores, removes, ok_bind]
  · exact sameThread.trans accounts.mainThread
  · have nonNull := accounts.nonNull
    simp only [filesOf, List.map_append, List.map_cons, List.mem_append,
      List.mem_cons] at nonNull ⊢
    tauto
  · rw [continues_history receives]
    exact settles

/-- The wrapper of a file is closed, and the file with it. -/
theorem Accounts.fclose_other
    {leading trailing : List Wrapper}
    {wrapper : Wrapper}
    (accounts : run.Accounts (leading ++ wrapper :: trailing))
    (notLog : wrapper.fp ≠ run.process.glue.logHandle)
    (result : Int) :
    ∃ next,
      run.perform (.fclose (handleOf wrapper.block) result) = .ok next ∧
        next.Accounts (leading ++ trailing) := by
  have member : wrapper.fp ∈ filesOf (leading ++ wrapper :: trailing) := by
    simp [filesOf]
  have nonNull : wrapper.fp ≠ 0 := by
    intro isNull
    exact accounts.nonNull (isNull ▸ member)
  have closes :
      run.process.closeStream wrapper.fp result =
        .ok (run.process.onHost
          (run.process.glue.host.records (.fclose wrapper.fp)), result) := by
    rw [Process.closeStream, if_neg notLog, if_neg nonNull]
    rfl
  have distinct := accounts.distinct
  rw [closedFiles, filesOf, List.map_append, List.map_cons,
    List.filter_append, List.filter_cons_of_pos (by simpa using notLog)]
    at distinct
  obtain ⟨once, restDistinct⟩ :=
    List.nodup_cons.mp (List.nodup_middle.mp distinct)
  rw [← List.filter_append, ← List.map_append] at once restDistinct
  have notLater : wrapper.fp ∉ filesOf (leading ++ trailing) := by
    intro later
    exact once (List.mem_filter.mpr ⟨later, by simpa using notLog⟩)
  refine accounts.closes closes rfl rfl rfl restDistinct ?_
  intro file
  change Settles (run.history ++ [.closed wrapper.fp]) file
    (_ ∨ file = run.process.glue.logHandle ∧ file ≠ 0)
  by_cases same : file = wrapper.fp
  · subst same
    refine ((accounts.settles wrapper.fp).close (.inl member) ?_).congr ?_
    · simp [eventsOf, FileEvent.file]
    · simp [notLater, notLog]
  · refine ((accounts.settles file).others ?_).congr ?_
    · simpa [FileEvent.file] using Ne.symm same
    · simp [filesOf, same]

/-- A wrapper of the log is closed, and the log stays open. -/
theorem Accounts.fclose_log
    {leading trailing : List Wrapper}
    {wrapper : Wrapper}
    (accounts : run.Accounts (leading ++ wrapper :: trailing))
    (isLog : wrapper.fp = run.process.glue.logHandle)
    (result : Int) :
    ∃ next,
      run.perform (.fclose (handleOf wrapper.block) result) = .ok next ∧
        next.Accounts (leading ++ trailing) := by
  have nonNull : wrapper.fp ≠ 0 := by
    intro isNull
    exact accounts.nonNull (by simp [filesOf, isNull])
  have closes :
      run.process.closeStream wrapper.fp result = .ok (run.process, 0) := by
    rw [Process.closeStream, if_pos isLog]
  have distinct := accounts.distinct
  rw [closedFiles, filesOf, List.map_append, List.map_cons,
    List.filter_append, List.filter_cons_of_neg (by simp [isLog]),
    ← List.filter_append, ← List.map_append] at distinct
  refine accounts.closes closes rfl rfl (List.append_nil _).symm distinct ?_
  intro file
  rw [List.filterMap_nil, List.append_nil]
  refine (accounts.settles file).congr ?_
  simp only [filesOf, List.map_append, List.map_cons, List.mem_append,
    List.mem_cons]
  by_cases same : file = wrapper.fp
  · simp [same, isLog, isLog ▸ nonNull]
  · simp [same]

/-- A live handle is closed. -/
theorem Accounts.fclose
    (accounts : run.Accounts wrappers)
    {buf : Addr}
    (live : buf ∈ run.process.handles.heap.live)
    (result : Int) :
    ∃ next rest,
      run.perform (.fclose (handleOf buf) result) = .ok next ∧
        next.Accounts rest := by
  have tracked : buf ∈ wrappers.map Wrapper.block := by
    rw [accounts.represents.liveBlocks, List.mem_toFinset] at live
    simpa [Handles.blocks, Wrapper.resource] using live
  obtain ⟨wrapper, member, rfl⟩ := List.mem_map.mp tracked
  obtain ⟨leading, trailing, rfl⟩ := List.append_of_mem member
  by_cases isLog : wrapper.fp = run.process.glue.logHandle
  · obtain ⟨next, performs, holds⟩ := accounts.fclose_log isLog result
    exact ⟨next, _, performs, holds⟩
  · obtain ⟨next, performs, holds⟩ := accounts.fclose_other isLog result
    exact ⟨next, _, performs, holds⟩

/-- Every permitted call completes. -/
theorem Accounts.perform
    (accounts : run.Accounts wrappers)
    {call : FileCall}
    (permits : run.Permits call) :
    ∃ next rest, run.perform call = .ok next ∧ next.Accounts rest := by
  cases call with
  | fopen64 path mode fp buf junk =>
      obtain ⟨ifLog, ifOther, available⟩ := permits
      by_cases isLog : path = linuxLogPath
      · subst isLog
        by_cases noLog : run.process.glue.logHandle = 0
        · obtain ⟨nonNull, notOpen⟩ := ifLog rfl noLog
          obtain ⟨next, performs, holds⟩ :=
            accounts.fopen64_firstLog noLog nonNull notOpen available
          exact ⟨next, _, performs, holds⟩
        · obtain ⟨next, performs, holds⟩ :=
            accounts.fopen64_log noLog available
          exact ⟨next, _, performs, holds⟩
      · obtain ⟨nonNull, notOpen⟩ := ifOther isLog
        obtain ⟨next, performs, holds⟩ :=
          accounts.fopen64_other isLog nonNull notOpen available
        exact ⟨next, _, performs, holds⟩
  | fclose f result =>
      obtain ⟨buf, live, rfl⟩ := permits
      exact accounts.fclose live result

/-- The finalisers close the files of the wrappers, all but the log. -/
theorem finaliseAll_wrappers
    {glue : Glue}
    (nonNull : 0 ∉ filesOf wrappers) :
    Handles.finaliseAll runtime (wrappers.map Wrapper.resource) glue =
      .ok { glue with host := { glue.host with
        trace := glue.host.trace ++
          (closedFiles glue.logHandle wrappers).map .fclose } } := by
  induction wrappers generalizing glue with
  | nil =>
      simp [Handles.finaliseAll, closedFiles, filesOf]
  | cons wrapper rest inductionHypothesis =>
      obtain ⟨notNull, restNonNull⟩ := not_or.mp (mt List.mem_cons.mpr nonNull)
      have notNull : wrapper.fp ≠ 0 := Ne.symm notNull
      change (Glue.finalise .resFile (handleOf wrapper.block)
        (.file wrapper.fp) glue >>= _) = _
      rw [Glue.finalise]
      by_cases isLog : wrapper.fp = glue.logHandle
      · rw [if_neg (fun both => both.2 isLog), ok_bind,
          inductionHypothesis restNonNull, closedFiles, closedFiles, filesOf,
          filesOf, List.map_cons, List.filter_cons_of_neg (by simp [isLog])]
      · rw [if_pos ⟨notNull, isLog⟩, ok_bind,
          inductionHypothesis restNonNull, closedFiles, closedFiles, filesOf,
          filesOf, List.map_cons,
          List.filter_cons_of_pos (by simpa using isLog), List.map_cons,
          List.append_cons]
        rfl

/-- The collection at exit closes what is still open, except for the log. -/
theorem Accounts.exit
    (accounts : run.Accounts wrappers) :
    ∃ final,
      run.exit = .ok final ∧
        ∀ fp, Settles final.history fp
          (fp = final.process.glue.logHandle ∧ fp ≠ 0) := by
  obtain ⟨collected, _, collects⟩ :=
    accounts.represents.resourceCollect runtime
  let closed := closedFiles run.process.glue.logHandle wrappers
  have collectsFiles := collects run.process.glue
  rw [finaliseAll_wrappers accounts.nonNull, ok_bind] at collectsFiles
  let final : Process := {
    handles := collected
    glue := { run.process.glue with
      host := { run.process.glue.host with
        trace := run.process.glue.host.trace ++ closed.map .fclose }
      isMainThread := false }
  }
  have exits : run.process.implExit = .ok final := by
    rw [Process.implExit, if_neg (not_not.mpr accounts.mainThread),
      collectsFiles, ok_bind]
  refine ⟨run.continues 0 final, ?_, fun fp => ?_⟩
  · rw [FileRun.exit, exits, ok_bind]
  rw [@continues_history run 0 final (closed.map .fclose) rfl,
    List.filterMap_map]
  have sameEvents :
      closed.filterMap
          (HostCall.fileEvent 0 ∘ HostCall.fclose) =
        closed.map .closed :=
    congrFun List.filterMap_eq_map closed
  rw [sameEvents]
  change Settles _ fp (fp = run.process.glue.logHandle ∧ fp ≠ 0)
  by_cases isClosed : fp ∈ closed
  · obtain ⟨isWrapped, notLog⟩ := List.mem_filter.mp isClosed
    refine ((accounts.settles fp).close (.inl isWrapped)
      (eventsOf_closed accounts.distinct isClosed)).congr ?_
    simp [of_decide_eq_true notLog]
  · refine ((accounts.settles fp).others ?_).congr ?_
    · intro event member
      obtain ⟨file, isFile, rfl⟩ := List.mem_map.mp member
      exact fun same => isClosed (same ▸ isFile)
    · refine or_iff_right_of_imp fun isWrapped => ?_
      have isLog : fp = run.process.glue.logHandle := by
        by_contra notLog
        exact isClosed
          (List.mem_filter.mpr ⟨isWrapped, decide_eq_true notLog⟩)
      exact ⟨isLog, fun isNull => accounts.nonNull (isNull ▸ isWrapped)⟩

/-- After every run of calls on files and the exit, the host has closed each
file that it opened exactly once, and the log not at all.  No call faults, so
none reads a wrapper that is gone. -/
theorem files_closed_once
    {calls : List FileCall}
    {last : FileRun}
    (run : Run Step initial calls last) :
    (∀ call, last.Permits call → ∃ next, last.Step call next) ∧
      ∃ final,
        last.exit = .ok final ∧
          ∀ fp, Settles final.history fp
            (fp = final.process.glue.logHandle ∧ fp ≠ 0) := by
  obtain ⟨wrappers, accounts⟩ :=
    @Run.invariant _ _ Step (fun run => ∃ wrappers, run.Accounts wrappers)
      (by
        rintro source call target ⟨wrappers, accounts⟩ ⟨permits, performs⟩
        obtain ⟨next, rest, performsNext, holds⟩ := accounts.perform permits
        cases performsNext.symm.trans performs
        exact ⟨rest, holds⟩)
      _ _ _ run ⟨[], initial_accounts⟩
  refine ⟨fun call permits => ?_, accounts.exit⟩
  obtain ⟨next, _, performs, _⟩ := accounts.perform permits
  exact ⟨next, permits, performs⟩

/-- The log is opened twice and another file once, and one of the wrappers of
the log is closed. -/
def logTwice : List FileCall :=
  [
    .fopen64 linuxLogPath "w" 4096 100 freshBlock,
    .fopen64 "/etc/hosts" "r" 4160 200 freshBlock,
    .fopen64 linuxLogPath "w" 0 300 freshBlock,
    .fclose (handleOf 300) 0
  ]

theorem files_closed_once_logTwice :
    ∃ last,
      Run Step initial logTwice last ∧
        (∀ call, last.Permits call → ∃ next, last.Step call next) ∧
        ∃ final,
          last.exit = .ok final ∧
            ∀ fp, Settles final.history fp
              (fp = final.process.glue.logHandle ∧ fp ≠ 0) := by
  have run : ∃ last, Run Step initial logTwice last := by
    refine ⟨_, .cons _ _ ⟨⟨fun _ _ => by decide, fun notLog => ?_, ?_⟩, rfl⟩
      (.cons _ _ ⟨⟨fun isLog => ?_, fun _ => by decide, ?_⟩, rfl⟩
        (.cons _ _ ⟨⟨fun _ noLog => ?_, fun notLog => ?_, ?_⟩, rfl⟩
          (.cons _ _ ⟨⟨300, ?_, rfl⟩, rfl⟩ (.nil _))))⟩
    · exact absurd rfl notLog
    · decide
    · exact absurd isLog (by decide)
    · decide
    · cases noLog
    · exact absurd rfl notLog
    · decide
    · decide
  obtain ⟨last, run⟩ := run
  exact ⟨last, run, files_closed_once run⟩

end FileRun

end Hamachi
