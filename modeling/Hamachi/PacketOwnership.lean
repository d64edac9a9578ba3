import Hamachi.Custody
import Hamachi.UdpSend

namespace Hamachi

/-!
# Packets in the kernel module `tun`

`tun_output` is given an mbuf and has to free it; `tun_write` has to hand what
it makes of the user's bytes to `netisr_queue`.  Both are modelled by the list
of kernel calls that they make, with the results of these calls as arguments.
Custody of mbufs, temporary buffers and `op->lock` is then a property of that
list.
-/

namespace TunDriver

/-- A call into the kernel; a `malloc` or `m_devget` that failed returned the
null pointer. -/
inductive KernelCall where
  | bpfMtap2 (m : Addr)
  | mtxLock (op : Addr)
  | mtxUnlock (op : Addr)
  | mLength (m : Addr)
  | malloc (sz : Nat) (result : Addr)
  | mCopydata (m : Addr) (sz : Nat) (data : Addr)
  | sosend (sender data : Addr) (sz : Nat)
  | free (buf : Addr)
  | mFreem (m : Addr)
  | uiomove (buf : Addr) (sz : Nat)
  | mDevget (buf : Addr) (sz : Nat) (result : Addr)
  | netisrQueue (m : Addr)
  deriving DecidableEq

/-- What a thread in the driver can own. -/
inductive Token where
  | mbuf (m : Addr)
  | buffer (buf : Addr)
  | opLock (op : Addr)
  deriving DecidableEq

namespace KernelCall

/-- The mbufs and buffers that a call reads or fills. -/
def uses : KernelCall → List Token
  | bpfMtap2 m => [.mbuf m]
  | mLength m => [.mbuf m]
  | mCopydata m _ data => [.mbuf m, .buffer data]
  | sosend _ data _ => [.buffer data]
  | uiomove buf _ => [.buffer buf]
  | mDevget buf _ _ => [.buffer buf]
  | _ => []

def gains : KernelCall → Option Token
  | mtxLock op => some (.opLock op)
  | malloc _ result =>
      if result = 0 then none else some (.buffer result)
  | mDevget _ _ result =>
      if result = 0 then none else some (.mbuf result)
  | _ => none

/-- What a call ends the ownership of; `netisr_queue` takes its mbuf over. -/
def gives : KernelCall → Option Token
  | mtxUnlock op => some (.opLock op)
  | free buf => some (.buffer buf)
  | mFreem m => some (.mbuf m)
  | netisrQueue m => some (.mbuf m)
  | _ => none

end KernelCall

/-- The rules of ownership of the kernel. -/
def custody : Custody KernelCall Token where
  uses := KernelCall.uses
  gains := KernelCall.gains
  gives := KernelCall.gives

/-- How a function of the driver ends. -/
inductive Outcome where
  | returned (ret : Int)
  | faulted (fault : Fault)
  deriving DecidableEq

/-- The kernel calls of a function and its end. -/
structure Execution where
  calls : List KernelCall
  outcome : Outcome
  deriving DecidableEq

/-- The fields of `struct opaque` that carry packets. -/
structure Opaque where
  address : Addr
  sender : Addr
  deriving DecidableEq

/-- `struct sockaddr`. -/
structure Sockaddr where
  len : Byte
  family : Byte
  data : Fin 14 → Byte

/-- `AF_UNSPEC`. -/
def afUnspec : Byte := 0

/-- `ENOMEM`. -/
def enomem : Int := 12

/-- What the kernel answers to `tun_output`; a `malloc` that may wait does not
fail. -/
structure OutputAnswers where
  mLength : Nat
  malloc : Addr
  mallocNonNull : malloc ≠ 0

/-- What the kernel answers to `tun_write`. -/
structure WriteAnswers where
  devfsGetCdevpriv : Option Opaque
  malloc : Addr
  uiomove : Int
  mDevget : Addr

/-- `bpf_mtap2`, which is compiled out for the PS4. -/
def tap (ps4 : Bool) (m : Addr) : List KernelCall :=
  if ps4 then [] else [.bpfMtap2 m]

/-- `if(a->sa_family == AF_UNSPEC) a->sa_family = …;` -/
def Sockaddr.resolve (a : Sockaddr) : Sockaddr :=
  if a.family = afUnspec then
    { a with family := a.data 0 }
  else
    a

/-- The packet is copied and sent to the reader of the device.  The result of
`sosend` is not looked at. -/
def sendCopy
    (op : Opaque)
    (m : Addr)
    (sz : Nat)
    (data : Addr) : List KernelCall :=
  [.malloc sz data, .mCopydata m sz data, .sosend op.sender data sz,
    .free data]

/-- `tun_output`, for an interface whose `if_softc` is `softc`: what it does
and what it leaves in `*a`. -/
def tunOutput
    (ps4 : Bool)
    (softc : Option Opaque)
    (m : Addr)
    (a : Sockaddr)
    (answers : OutputAnswers) : Execution × Sockaddr :=
  match softc with
  | none => (⟨tap ps4 m, .returned 0⟩, a)
  | some op =>
      let a := a.resolve
      let sz := answers.mLength
      let sends :=
        if a.family = afInet ∧ sz ≤ 65536 then
          sendCopy op m sz answers.malloc
        else
          []
      (⟨tap ps4 m ++ ([.mtxLock op.address, .mLength m] ++ (sends ++
          [.mtxUnlock op.address, .mFreem m])),
        .returned 0⟩, a)

/-- `tun_write` from `mtx_lock(&o->lock)` on. -/
def deliver
    (ps4 : Bool)
    (o : Opaque)
    (buf : Addr)
    (sz : Nat)
    (m : Addr) : Execution :=
  if m = 0 then
    ⟨[.mtxLock o.address, .mDevget buf sz m, .free buf,
        .mtxUnlock o.address],
      .returned enomem⟩
  else
    ⟨[.mtxLock o.address, .mDevget buf sz m] ++ (tap ps4 m ++
        [.netisrQueue m, .free buf, .mtxUnlock o.address]),
      .returned 0⟩

/-- `tun_write`; `sz` is `uio->uio_resid`.  The result of
`devfs_get_cdevpriv` is not tested, so a failure leaves `o` null. -/
def tunWrite
    (ps4 : Bool)
    (sz : Nat)
    (answers : WriteAnswers) : Execution :=
  if 65536 ≤ sz then
    ⟨[], .returned enomem⟩
  else
    let buf := answers.malloc
    if buf = 0 then
      ⟨[.malloc sz buf], .returned enomem⟩
    else if answers.uiomove ≠ 0 then
      ⟨[.malloc sz buf, .uiomove buf sz, .free buf],
        .returned answers.uiomove⟩
    else
      match answers.devfsGetCdevpriv with
      | none => ⟨[.malloc sz buf, .uiomove buf sz], .faulted .nullPointer⟩
      | some o =>
          let delivery := deliver ps4 o buf sz answers.mDevget
          { delivery with
            calls := [.malloc sz buf, .uiomove buf sz] ++ delivery.calls }

/-- A function of the driver returns, having freed or passed on everything that
it was given or made, through `disposes` if it is an mbuf. -/
structure Execution.Disposes
    (execution : Execution)
    (given : Finset Token)
    (disposes : Addr → KernelCall) : Prop where
  returns : ∃ ret, execution.outcome = .returned ret
  settles : custody.Settles given execution.calls
  mbufs :
    ∀ m,
      execution.calls.count (disposes m) =
        (if .mbuf m ∈ given then 1 else 0) +
          occurrences KernelCall.gains (.mbuf m) execution.calls
  buffers :
    ∀ buf,
      execution.calls.count (.free buf) =
        occurrences KernelCall.gains (.buffer buf) execution.calls
  opLocks :
    ∀ op,
      execution.calls.count (.mtxUnlock op) =
        execution.calls.count (.mtxLock op)

/-- A call of one of the two functions, with what the kernel answers to it. -/
inductive TunCall where
  | output
      (softc : Option Opaque)
      (m : Addr)
      (a : Sockaddr)
      (answers : OutputAnswers)
  | write (sz : Nat) (answers : WriteAnswers)

namespace TunCall

/-- No mbuf, buffer or lock is lost or disposed of twice. -/
def KeepsPackets (ps4 : Bool) : TunCall → Prop
  | output softc m a answers =>
      (tunOutput ps4 softc m a answers).1.Disposes {.mbuf m} .mFreem
  | write sz answers =>
      (tunWrite ps4 sz answers).Disposes ∅ .netisrQueue

/-- The interface has a device; a write finds the device, unless it returns
before it needs one. -/
def Attached : TunCall → Prop
  | output softc _ _ _ => softc ≠ none
  | write sz answers =>
      answers.devfsGetCdevpriv ≠ none ∨
        65536 ≤ sz ∨ answers.malloc = 0 ∨ answers.uiomove ≠ 0

end TunCall

section Accounts

variable {calls : List KernelCall}

/-- Calls with one token are the occurrences of that token. -/
theorem occurrences_eq_count
    {concerns : KernelCall → Option Token}
    {token : Token}
    {call : KernelCall}
    (only : ∀ other, concerns other = some token ↔ other = call) :
    occurrences concerns token calls = calls.count call := by
  unfold occurrences List.count
  congr 1
  funext other
  simp only [only]
  rfl

theorem gives_buffer (buf : Addr) :
    occurrences KernelCall.gives (.buffer buf) calls =
      calls.count (.free buf) := by
  apply occurrences_eq_count
  intro other
  cases other <;> simp [KernelCall.gives]

theorem gives_opLock (op : Addr) :
    occurrences KernelCall.gives (.opLock op) calls =
      calls.count (.mtxUnlock op) := by
  apply occurrences_eq_count
  intro other
  cases other <;> simp [KernelCall.gives]

theorem gains_opLock (op : Addr) :
    occurrences KernelCall.gains (.opLock op) calls =
      calls.count (.mtxLock op) := by
  apply occurrences_eq_count
  intro other
  cases other <;> simp [KernelCall.gains]

/-- An mbuf is freed or passed on. -/
theorem gives_mbuf (m : Addr) :
    occurrences KernelCall.gives (.mbuf m) calls =
      calls.count (.mFreem m) + calls.count (.netisrQueue m) := by
  induction calls with
  | nil =>
      rfl
  | cons call rest inductionHypothesis =>
      rw [occurrences, List.countP_cons, ← occurrences, inductionHypothesis,
        List.count_cons, List.count_cons]
      cases call <;> simp [KernelCall.gives] <;> omega

end Accounts

namespace Execution

variable
  {execution : Execution}
  {given : Finset Token}

/-- Calls that settle dispose of each mbuf through the one call they use. -/
theorem Disposes.of_settles
    {disposes other : Addr → KernelCall}
    (isDisposal :
      disposes = .mFreem ∧ other = .netisrQueue ∨
        disposes = .netisrQueue ∧ other = .mFreem)
    (returns : ∃ ret, execution.outcome = .returned ret)
    (settles : custody.Settles given execution.calls)
    (onlyMbufs : ∀ token ∈ given, ∃ m, token = .mbuf m)
    (unused : ∀ m, other m ∉ execution.calls) :
    execution.Disposes given disposes where
  returns := returns
  settles := settles
  mbufs := by
    intro m
    have account := settles.gives (.mbuf m)
    change occurrences KernelCall.gives _ _ = _ + occurrences KernelCall.gains _ _
      at account
    have none := List.count_eq_zero.mpr (unused m)
    rw [gives_mbuf] at account
    rcases isDisposal with ⟨rfl, rfl⟩ | ⟨rfl, rfl⟩ <;> omega
  buffers := by
    intro buf
    have account := settles.gives (.buffer buf)
    have notGiven : Token.buffer buf ∉ given := by
      intro member
      obtain ⟨m, isMbuf⟩ := onlyMbufs _ member
      cases isMbuf
    rw [if_neg notGiven, Nat.zero_add] at account
    exact (gives_buffer buf).symm.trans account
  opLocks := by
    intro op
    have account := settles.gives (.opLock op)
    have notGiven : Token.opLock op ∉ given := by
      intro member
      obtain ⟨m, isMbuf⟩ := onlyMbufs _ member
      cases isMbuf
    rw [if_neg notGiven, Nat.zero_add] at account
    exact (gives_opLock op).symm.trans (account.trans (gains_opLock op))

end Execution

section Calls

variable
  {owned : Finset Token}
  {calls : List KernelCall}

/-- The tap only looks at the mbuf. -/
theorem settles_tap
    {ps4 : Bool}
    {m : Addr}
    (owns : .mbuf m ∈ owned) :
    custody.Settles owned (tap ps4 m ++ calls) ↔
      custody.Settles owned calls := by
  cases ps4 with
  | true =>
      rfl
  | false =>
      exact Custody.settles_cons
        (Custody.after_uses rfl rfl (by simpa [custody, KernelCall.uses]))

/-- Sending a copy leaves the thread with what it had. -/
theorem settles_sendCopy
    {op : Opaque}
    {m data : Addr}
    {sz : Nat}
    (nonNull : data ≠ 0)
    (owns : .mbuf m ∈ owned)
    (isNew : .buffer data ∉ owned) :
    custody.Settles owned (sendCopy op m sz data ++ calls) ↔
      custody.Settles owned calls := by
  have mallocs :
      custody.after owned (.malloc sz data) =
        some (insert (.buffer data) owned) :=
    Custody.after_gains (if_neg nonNull) rfl (by simp [custody, KernelCall.uses])
      isNew
  have copies :
      custody.after (insert (.buffer data) owned) (.mCopydata m sz data) =
        some (insert (.buffer data) owned) :=
    Custody.after_uses rfl rfl (by simp [custody, KernelCall.uses, owns])
  have sends :
      custody.after (insert (.buffer data) owned)
          (.sosend op.sender data sz) =
        some (insert (.buffer data) owned) :=
    Custody.after_uses rfl rfl (by simp [custody, KernelCall.uses])
  have frees :
      custody.after (insert (.buffer data) owned) (.free data) =
        some owned :=
    Custody.after_gives_insert rfl rfl (by simp [custody, KernelCall.uses])
      isNew
  rw [sendCopy]
  simp only [List.cons_append, List.nil_append,
    Custody.settles_cons mallocs, Custody.settles_cons copies,
    Custody.settles_cons sends, Custody.settles_cons frees]

/-- A `malloc` that failed gives the caller nothing. -/
theorem after_malloc_failed
    {sz : Nat} :
    custody.after owned (.malloc sz 0) = some owned :=
  Custody.after_uses rfl rfl (by simp [custody, KernelCall.uses])

/-- From `mtx_lock(&o->lock)` on, `tun_write` disposes of its buffer. -/
theorem settles_deliver
    {ps4 : Bool}
    {o : Opaque}
    {buf m : Addr}
    {sz : Nat} :
    custody.Settles {.buffer buf} (deliver ps4 o buf sz m).calls := by
  have locks :
      custody.after {.buffer buf} (.mtxLock o.address) =
        some {.opLock o.address, .buffer buf} :=
    Custody.after_gains rfl rfl (by simp [custody, KernelCall.uses]) (by simp)
  have frees :
      custody.after {.opLock o.address, .buffer buf} (.free buf) =
        some {.opLock o.address} := by
    rw [Finset.pair_comm]
    exact Custody.after_gives_insert rfl rfl
      (by simp [custody, KernelCall.uses]) (by simp)
  have unlocks :
      custody.after {.opLock o.address} (.mtxUnlock o.address) = some ∅ :=
    Custody.after_gives_last rfl rfl (by simp [custody, KernelCall.uses])
  unfold deliver
  split
  · rename_i isNull
    have makesNone :
        custody.after {.opLock o.address, .buffer buf} (.mDevget buf sz m) =
          some {.opLock o.address, .buffer buf} :=
      Custody.after_uses (if_pos isNull) rfl (by simp [custody, KernelCall.uses])
    rw [Custody.settles_cons locks, Custody.settles_cons makesNone,
      Custody.settles_cons frees, Custody.settles_cons unlocks]
    rfl
  · rename_i nonNull
    have makes :
        custody.after {.opLock o.address, .buffer buf} (.mDevget buf sz m) =
          some {.mbuf m, .opLock o.address, .buffer buf} :=
      Custody.after_gains (if_neg nonNull) rfl
        (by simp [custody, KernelCall.uses]) (by simp)
    have queues :
        custody.after {.mbuf m, .opLock o.address, .buffer buf}
            (.netisrQueue m) =
          some {.opLock o.address, .buffer buf} :=
      Custody.after_gives_insert rfl rfl
        (by simp [custody, KernelCall.uses]) (by simp)
    simp only [List.cons_append, List.nil_append]
    rw [Custody.settles_cons locks, Custody.settles_cons makes,
      settles_tap (by simp), Custody.settles_cons queues,
      Custody.settles_cons frees, Custody.settles_cons unlocks]
    rfl

theorem deliver_returns
    {ps4 : Bool}
    {o : Opaque}
    {buf m : Addr}
    {sz : Nat} :
    ∃ ret, (deliver ps4 o buf sz m).outcome = .returned ret := by
  unfold deliver
  split
  · exact ⟨_, rfl⟩
  · exact ⟨_, rfl⟩

/-- `tun_output` has nothing to do with `netisr_queue`. -/
theorem netisrQueue_notMem_tunOutput
    (ps4 : Bool)
    (softc : Option Opaque)
    (m : Addr)
    (a : Sockaddr)
    (answers : OutputAnswers)
    (other : Addr) :
    .netisrQueue other ∉ (tunOutput ps4 softc m a answers).1.calls := by
  unfold tunOutput tap sendCopy
  cases softc with
  | none => cases ps4 <;> simp
  | some op => cases ps4 <;> dsimp only <;> split <;> simp

/-- `tun_write` does not free an mbuf itself. -/
theorem mFreem_notMem_tunWrite
    (ps4 : Bool)
    (sz : Nat)
    (answers : WriteAnswers)
    (other : Addr) :
    .mFreem other ∉ (tunWrite ps4 sz answers).calls := by
  unfold tunWrite
  dsimp only
  split
  · simp
  split
  · simp
  split
  · simp
  cases answers.devfsGetCdevpriv with
  | none => simp
  | some o =>
      unfold deliver tap
      dsimp only
      split
      · simp
      · cases ps4 <;> simp

/-- `tun_output` frees the mbuf where the interface has a device. -/
theorem settles_tunOutput
    (ps4 : Bool)
    (op : Opaque)
    (m : Addr)
    (a : Sockaddr)
    (answers : OutputAnswers) :
    custody.Settles {.mbuf m}
      (tunOutput ps4 (some op) m a answers).1.calls := by
  have locks :
      custody.after {.mbuf m} (.mtxLock op.address) =
        some {.opLock op.address, .mbuf m} :=
    Custody.after_gains rfl rfl (by simp [custody, KernelCall.uses]) (by simp)
  have measures :
      custody.after {.opLock op.address, .mbuf m} (.mLength m) =
        some {.opLock op.address, .mbuf m} :=
    Custody.after_uses rfl rfl (by simp [custody, KernelCall.uses])
  have unlocks :
      custody.after {.opLock op.address, .mbuf m} (.mtxUnlock op.address) =
        some {.mbuf m} :=
    Custody.after_gives_insert rfl rfl (by simp [custody, KernelCall.uses])
      (by simp)
  have frees : custody.after {.mbuf m} (.mFreem m) = some ∅ :=
    Custody.after_gives_last rfl rfl (by simp [custody, KernelCall.uses])
  unfold tunOutput
  rw [settles_tap (by simp), List.cons_append, List.cons_append,
    List.nil_append, Custody.settles_cons locks,
    Custody.settles_cons measures]
  split
  · rw [settles_sendCopy answers.mallocNonNull (by simp) (by simp),
      Custody.settles_cons unlocks, Custody.settles_cons frees]
    rfl
  · rw [List.nil_append, Custody.settles_cons unlocks,
      Custody.settles_cons frees]
    rfl

/-- `tun_write` disposes of its buffer and its mbuf, unless it needs a device
and has none. -/
theorem settles_tunWrite
    (ps4 : Bool)
    {sz : Nat}
    {answers : WriteAnswers}
    (attached : (TunCall.write sz answers).Attached) :
    (∃ ret, (tunWrite ps4 sz answers).outcome = .returned ret) ∧
      custody.Settles ∅ (tunWrite ps4 sz answers).calls := by
  unfold tunWrite
  split
  · exact ⟨⟨_, rfl⟩, rfl⟩
  rename_i small
  dsimp only
  split
  · rename_i isNull
    refine ⟨⟨_, rfl⟩, ?_⟩
    rw [isNull, Custody.settles_cons after_malloc_failed]
    rfl
  rename_i nonNull
  have mallocs :
      custody.after ∅ (.malloc sz answers.malloc) =
        some {.buffer answers.malloc} :=
    Custody.after_gains (if_neg nonNull) rfl
      (by simp [custody, KernelCall.uses]) (by simp)
  have moves :
      custody.after {.buffer answers.malloc} (.uiomove answers.malloc sz) =
        some {.buffer answers.malloc} :=
    Custody.after_uses rfl rfl (by simp [custody, KernelCall.uses])
  split
  · have frees :
        custody.after {.buffer answers.malloc} (.free answers.malloc) =
          some ∅ :=
      Custody.after_gives_last rfl rfl (by simp [custody, KernelCall.uses])
    refine ⟨⟨_, rfl⟩, ?_⟩
    rw [Custody.settles_cons mallocs, Custody.settles_cons moves,
      Custody.settles_cons frees]
    rfl
  rename_i moved
  cases found : answers.devfsGetCdevpriv with
  | none =>
      rcases attached with device | long | noBuffer | failed
      · exact absurd found device
      · exact absurd long small
      · exact absurd noBuffer nonNull
      · exact absurd failed moved
  | some o =>
      refine ⟨deliver_returns, ?_⟩
      dsimp only
      rw [List.cons_append, List.cons_append, List.nil_append,
        Custody.settles_cons mallocs, Custody.settles_cons moves]
      exact settles_deliver

end Calls

namespace TunCall

/-- Without a device `tun_output` returns with the mbuf. -/
theorem not_keepsPackets_output
    (ps4 : Bool)
    (m : Addr)
    (a : Sockaddr)
    (answers : OutputAnswers) :
    ¬ (output none m a answers).KeepsPackets ps4 := by
  intro keeps
  have settles : custody.Settles {.mbuf m} (tap ps4 m ++ []) := by
    rw [List.append_nil]
    exact keeps.settles
  rw [settles_tap (by simp)] at settles
  exact Finset.singleton_ne_empty _ (Option.some.inj settles)

/-- Packets are kept exactly by the calls that have a device where they need
one. -/
theorem keepsPackets_iff_attached
    (ps4 : Bool)
    (call : TunCall) :
    call.KeepsPackets ps4 ↔ call.Attached := by
  cases call with
  | output softc m a answers =>
      cases softc with
      | none =>
          exact iff_of_false (not_keepsPackets_output ps4 m a answers)
            (not_not_intro rfl)
      | some op =>
          refine iff_of_true ?_ (Option.some_ne_none op)
          refine .of_settles (.inl ⟨rfl, rfl⟩) ⟨0, rfl⟩
            (settles_tunOutput ps4 op m a answers) ?_ ?_
          · intro token member
            exact ⟨m, Finset.mem_singleton.mp member⟩
          · exact netisrQueue_notMem_tunOutput ps4 (some op) m a answers
  | write sz answers =>
      constructor
      · intro keeps
        obtain ⟨ret, returns⟩ := keeps.returns
        by_contra detached
        simp only [Attached, not_or, not_not, not_le] at detached
        obtain ⟨noDevice, small, nonNull, moved⟩ := detached
        rw [tunWrite, if_neg (Nat.not_le.mpr small)] at returns
        dsimp only at returns
        rw [if_neg nonNull, if_neg (not_not_intro moved), noDevice] at returns
        cases returns
      · intro attached
        obtain ⟨returns, settles⟩ := settles_tunWrite ps4 attached
        refine .of_settles (.inr ⟨rfl, rfl⟩) returns settles ?_ ?_
        · intro token member
          exact absurd member (Finset.notMem_empty token)
        · exact mFreem_notMem_tunWrite ps4 sz answers

/-- A packet of 84 bytes for an interface whose device was closed. -/
theorem not_keepsPackets_closed :
    (tunOutput true none 8192 ⟨16, afInet, fun _ => 0⟩
        ⟨84, 4096, by decide⟩).1 = ⟨[], .returned 0⟩ ∧
      ¬ ∀ (ps4 : Bool) (call : TunCall), call.KeepsPackets ps4 := by
  refine ⟨rfl, fun keeps => ?_⟩
  exact not_keepsPackets_output true 8192 ⟨16, afInet, fun _ => 0⟩
    ⟨84, 4096, by decide⟩ (keeps _ _)

end TunCall

end TunDriver

end Hamachi
