import Hamachi.ArpReplies
import Hamachi.GlueDevices
import Hamachi.Lookup
import Hamachi.Popen

namespace Hamachi

/-!
# Capturing what the Linux program prints

While `is_in_popen` is set, the functions of `glue.c` that print divert what
goes to `stdout` into the buffer of `popen.c`.  The symbol table offers seven of
them to the Linux program; `puts` is bound to the host's own.
-/

/-- What a successful `vasprintf` yields: its result is an `int`. -/
structure Text where
  bytes : List Byte
  short : bytes.length < 2 ^ 31

/-- The result of `vasprintf`; after a failure the output pointer is
unspecified and finds some bytes. -/
inductive Vasprintf where
  | failed (found : List Byte)
  | formatted (text : Text)

/-- The return value of a `printf` function. -/
def Vasprintf.ret : Vasprintf → Int
  | .failed _ => -1
  | .formatted text => text.bytes.length

/-- The pointer and size that `popen_printf` passes on; the `int` result of
`vasprintf` becomes a `size_t`. -/
def Vasprintf.passed : Vasprintf → List Byte × Nat
  | .failed found => (found, sizeModulus - 1)
  | .formatted text => (text.bytes, text.bytes.length)

/-- The state behind the output functions: the statics of `glue.c`, those of
`popen.c`, the host's `stdout` and what reached it. -/
structure Stdio where
  glue : Glue
  popen : Popen
  stdout : Addr
  terminal : List Byte

/-- `popen_printf`. -/
def popenPrintf
    (popen : Popen)
    (format : Vasprintf)
    (junk : Nat → Byte) :
    Except Fault (Popen × Int) := do
  let popen ← popen.write format.passed.1 format.passed.2 junk
  .ok (popen, format.ret)

namespace Stdio

/-- `vprintf` of the host. -/
def vprintf (stdio : Stdio) : Vasprintf → Stdio × Int
  | .failed _ => (stdio, -1)
  | .formatted text =>
      ({ stdio with terminal := stdio.terminal ++ text.bytes },
        text.bytes.length)

/-- `vfprintf` of the host; other files are not part of the state. -/
def vfprintf
    (stdio : Stdio)
    (fp : Addr)
    (format : Vasprintf) :
    Stdio × Int :=
  if fp = stdio.stdout then stdio.vprintf format else (stdio, format.ret)

/-- `popen_printf` on the statics of `popen.c`. -/
def popenPrintf
    (stdio : Stdio)
    (format : Vasprintf)
    (junk : Nat → Byte) :
    Except Fault (Stdio × Int) := do
  let (popen, ans) ← Hamachi.popenPrintf stdio.popen format junk
  .ok ({ stdio with popen := popen }, ans)

/-- `impl___vprintf_chk`. -/
def implVprintfChk
    (stdio : Stdio)
    (format : Vasprintf)
    (junk : Nat → Byte) :
    Except Fault (Stdio × Int) :=
  if stdio.popen.isInPopen then
    stdio.popenPrintf format junk
  else
    .ok (stdio.vprintf format)

/-- `impl___printf_chk`. -/
def implPrintfChk
    (stdio : Stdio)
    (format : Vasprintf)
    (junk : Nat → Byte) :
    Except Fault (Stdio × Int) :=
  stdio.implVprintfChk format junk

/-- `impl___vfprintf_chk`; `fp` is what the handle of the program holds. -/
def implVfprintfChk
    (stdio : Stdio)
    (fp : Addr)
    (format : Vasprintf)
    (junk : Nat → Byte) :
    Except Fault (Stdio × Int) := do
  let (stdio, ans) ←
    if fp = stdio.stdout ∧ stdio.popen.isInPopen then
      stdio.popenPrintf format junk
    else
      .ok (stdio.vfprintf fp format)
  if fp = stdio.glue.logHandle then
    .ok ((stdio.vprintf format).1, ans)
  else
    .ok (stdio, ans)

/-- `impl___fprintf_chk`. -/
def implFprintfChk
    (stdio : Stdio)
    (fp : Addr)
    (format : Vasprintf)
    (junk : Nat → Byte) :
    Except Fault (Stdio × Int) :=
  stdio.implVfprintfChk fp format junk

/-- `fwrite` of the host on `stdout`. -/
def fwriteStdout (stdio : Stdio) (data : List Byte) (size : Nat) : Stdio :=
  { stdio with terminal := stdio.terminal ++ data.take size }

/-- `impl_fwrite`; the host's `fwrite` returns `result`. -/
def implFwrite
    (stdio : Stdio)
    (data : List Byte)
    (sz nmemb : Nat)
    (fp : Addr)
    (result : Int)
    (junk : Nat → Byte) :
    Except Fault (Stdio × Int) :=
  if fp = stdio.stdout ∧ stdio.popen.isInPopen then do
    let popen ← stdio.popen.write data (sz * nmemb % sizeModulus) junk
    .ok ({ stdio with popen := popen }, nmemb)
  else
    let stdio :=
      if fp = stdio.stdout then
        stdio.fwriteStdout data (sz * nmemb)
      else
        stdio
    if fp = stdio.glue.logHandle then
      .ok (stdio.fwriteStdout data (sz * nmemb), result)
    else
      .ok (stdio, result)

/-- `impl_write`; the host's `write` returns `result`. -/
def implWrite
    {cnt : Nat}
    (stdio : Stdio)
    (fd : Int)
    (buf : Buffer cnt)
    (result : Int)
    (junk : Nat → Byte) :
    Except Fault (Stdio × Int) :=
  if fd = stdio.glue.tunFd then do
    let write ← tuntapWrite stdio.glue.tuntap buf result
    .ok ({ stdio with glue := { stdio.glue with tuntap := write.tap } },
      write.ret)
  else if fd = 1 ∧ stdio.popen.isInPopen then do
    let popen ← stdio.popen.write buf.bytes cnt junk
    .ok ({ stdio with popen := popen }, cnt)
  else if fd = 1 then
    .ok (stdio.fwriteStdout buf.bytes result.toNat, result)
  else
    .ok (stdio, result)

/-- `puts` of the host. -/
def puts (stdio : Stdio) (s : List Byte) : Stdio :=
  { stdio with terminal := stdio.terminal ++ s ++ [10] }

/-- The statics as `glue.c` sees them: of the buffer, the bytes it holds. -/
def view (stdio : Stdio) : Glue :=
  { stdio.glue with
    isInPopen := stdio.popen.isInPopen
    popenData := stdio.popen.delivered }

end Stdio

/-- An operation on `stdout` that the symbol table offers, with the host's
answer where one is asked for. -/
inductive StdoutOp where
  | printfChk (text : Text)
  | vprintfChk (text : Text)
  | fprintfChk (text : Text)
  | vfprintfChk (text : Text)
  | fwrite
      (sz nmemb : Nat)
      (data : List Byte)
      (whole : data.length = sz * nmemb)
      (result : Int)
  | puts (s : List Byte)
  | write {cnt : Nat} (buf : Buffer cnt) (result : Int)

namespace StdoutOp

/-- The name under which the Linux program calls the operation. -/
def symbol : StdoutOp → String
  | .printfChk _ => "__printf_chk"
  | .vprintfChk _ => "__vprintf_chk"
  | .fprintfChk _ => "__fprintf_chk"
  | .vfprintfChk _ => "__vfprintf_chk"
  | .fwrite .. => "fwrite"
  | .puts _ => "puts"
  | .write .. => "write"

/-- The function that serves the operation. -/
def function : StdoutOp → String
  | .printfChk _ => "impl___printf_chk"
  | .vprintfChk _ => "impl___vprintf_chk"
  | .fprintfChk _ => "impl___fprintf_chk"
  | .vfprintfChk _ => "impl___vfprintf_chk"
  | .fwrite .. => "impl_fwrite"
  | .puts _ => "puts"
  | .write .. => "impl_write"

/-- The names and functions of the operations. -/
def bindings : List (String × String) :=
  [
    ("__printf_chk", "impl___printf_chk"),
    ("__vprintf_chk", "impl___vprintf_chk"),
    ("__fprintf_chk", "impl___fprintf_chk"),
    ("__vfprintf_chk", "impl___vfprintf_chk"),
    ("fwrite", "impl_fwrite"),
    ("puts", "puts"),
    ("write", "impl_write")
  ]

theorem bindings_bound :
    ∀ binding ∈ bindings, ∃ row ∈ symbols,
      row.name.chars = binding.1.toList ∧
        row.value = .addressOf binding.2 := by
  decide +kernel

/-- The symbol table binds each operation to the function that serves it. -/
theorem bound (op : StdoutOp) :
    ∃ row ∈ symbols,
      row.name.chars = op.symbol.toList ∧
        row.value = .addressOf op.function := by
  refine bindings_bound (op.symbol, op.function) ?_
  cases op <;> simp [symbol, function, bindings]

/-- The bytes that the operation writes to `stdout` outside of a capture. -/
def bytes (tunFd : Int) : StdoutOp → List Byte
  | .printfChk text => text.bytes
  | .vprintfChk text => text.bytes
  | .fprintfChk text => text.bytes
  | .vfprintfChk text => text.bytes
  | .fwrite _ _ data _ _ => data
  | .puts s => s ++ [10]
  | .write buf _ => if 1 = tunFd then [] else buf.bytes

/-- The operation is a call of `puts`. -/
def isPuts : StdoutOp → Bool
  | .puts _ => true
  | _ => false

end StdoutOp

namespace Stdio

/-- Perform an operation of the Linux program. -/
def perform
    (stdio : Stdio)
    (op : StdoutOp)
    (junk : Nat → Byte) :
    Except Fault Stdio :=
  match op with
  | .printfChk text => do
      return (← stdio.implPrintfChk (.formatted text) junk).1
  | .vprintfChk text => do
      return (← stdio.implVprintfChk (.formatted text) junk).1
  | .fprintfChk text => do
      return (← stdio.implFprintfChk stdio.stdout (.formatted text) junk).1
  | .vfprintfChk text => do
      return (← stdio.implVfprintfChk stdio.stdout (.formatted text) junk).1
  | .fwrite sz nmemb data _ result => do
      return (← stdio.implFwrite data sz nmemb stdio.stdout result junk).1
  | .puts s =>
      .ok (stdio.puts s)
  | .write buf result => do
      return (← stdio.implWrite 1 buf result junk).1

/-- Perform operations in order, each with what new memory holds. -/
def performAll
    (stdio : Stdio)
    (calls : List (StdoutOp × (Nat → Byte))) :
    Except Fault Stdio :=
  calls.foldlM (fun stdio call => stdio.perform call.1 call.2) stdio

/-- The state when `my_popen` has set `is_in_popen`. -/
def capturing (glue : Glue) (stdout : Addr) (terminal : List Byte) : Stdio where
  glue := glue
  popen := { Popen.empty with isInPopen := true }
  stdout := stdout
  terminal := terminal

/-- The operations return and `popen_get` delivers, in order, all that they
would have written to `stdout`. -/
def Captures
    (stdio : Stdio)
    (calls : List (StdoutOp × (Nat → Byte))) : Prop :=
  ∃ final,
    stdio.performAll calls = .ok final ∧
      final.popen.delivered =
        calls.flatMap fun call => call.1.bytes stdio.glue.tunFd

end Stdio

namespace StdoutOp

/-- The `popen_write` of the operation during a capture: a buffer and a size. -/
def diverted (tunFd : Int) : StdoutOp → Option (List Byte × Nat)
  | .fwrite sz nmemb data _ _ => some (data, sz * nmemb % sizeModulus)
  | .puts _ => none
  | .write buf _ =>
      if 1 = tunFd then none else some (buf.bytes, buf.bytes.length)
  | op => some (op.bytes tunFd, (op.bytes tunFd).length)

/-- The bytes that the operation appends to the buffer during a capture. -/
def captured (tunFd : Int) (op : StdoutOp) : List Byte :=
  match op.diverted tunFd with
  | none => []
  | some (buf, sz) => buf.take sz

/-- No operation appends more than it would have written. -/
theorem captured_length_le
    (tunFd : Int)
    (op : StdoutOp) :
    (op.captured tunFd).length ≤ (op.bytes tunFd).length := by
  cases op with
  | write buf result =>
      by_cases isTun : 1 = tunFd <;> simp [captured, diverted, bytes, isTun]
  | _ =>
      simp [captured, diverted, bytes]

/-- `puts` appends less than it would have written. -/
theorem captured_length_lt
    (tunFd : Int)
    {op : StdoutOp}
    (isPuts : op.isPuts = true) :
    (op.captured tunFd).length < (op.bytes tunFd).length := by
  cases op with
  | puts s =>
      simp [captured, diverted, bytes]
  | _ =>
      cases isPuts

/-- Up to `2 ^ 63` bytes an operation other than `puts` hands all of its bytes
to `popen_write`, if any. -/
theorem diverted_whole
    {tunFd : Int}
    {op : StdoutOp}
    (notPuts : op.isPuts = false)
    (small : (op.bytes tunFd).length ≤ 2 ^ 63) :
    op.diverted tunFd = none ∧ op.bytes tunFd = [] ∨
      op.diverted tunFd =
        some (op.bytes tunFd, (op.bytes tunFd).length) := by
  cases op with
  | fwrite sz nmemb data whole result =>
      have fits : sz * nmemb < sizeModulus := by
        rw [← whole]
        exact small.trans_lt (by decide)
      refine .inr ?_
      rw [diverted, bytes, Nat.mod_eq_of_lt fits, ← whole]
  | puts s =>
      cases notPuts
  | write buf result =>
      by_cases isTun : 1 = tunFd
      · exact .inl (by simp [diverted, bytes, isTun])
      · exact .inr (by simp [diverted, bytes, isTun])
  | _ =>
      exact .inr rfl

end StdoutOp

namespace Stdio

variable
  {stdio next final : Stdio}
  {held : List Byte}
  {junk : Nat → Byte}

/-- Outside of a capture an operation writes its bytes to `stdout`, when the
host's `write` takes all of them and the log is another file. -/
theorem perform_uncaptured
    (op : StdoutOp)
    (notCapturing : stdio.popen.isInPopen = false)
    (notLog : stdio.stdout ≠ stdio.glue.logHandle)
    (takesAll :
      match op with
      | .write buf result => result = buf.bytes.length
      | _ => True) :
    ∃ next,
      stdio.perform op junk = .ok next ∧
        next.terminal = stdio.terminal ++ op.bytes stdio.glue.tunFd := by
  cases op with
  | fwrite sz nmemb data whole result =>
      simp only [perform, implFwrite, notCapturing, Bool.false_eq_true,
        and_false, if_false, if_true, if_neg notLog, fwriteStdout, ← whole,
        List.take_length, ok_bind]
      exact ⟨_, rfl, rfl⟩
  | puts s =>
      exact ⟨_, rfl, List.append_assoc _ _ _⟩
  | write buf result =>
      by_cases isTun : 1 = stdio.glue.tunFd
      · obtain ⟨write, writes⟩ :=
          tuntapWrite_returns stdio.glue.tuntap buf result
        simp only [perform, implWrite, if_pos isTun, writes, ok_bind]
        refine ⟨_, rfl, ?_⟩
        simp [StdoutOp.bytes, isTun]
      · simp only [perform, implWrite, if_neg isTun, notCapturing,
          Bool.false_eq_true, and_false, if_false, if_true, takesAll,
          fwriteStdout, Int.toNat_natCast, List.take_length, ok_bind]
        exact ⟨_, rfl, by simp [StdoutOp.bytes, isTun]⟩
  | _ =>
      simp only [perform, implPrintfChk, implVprintfChk, implFprintfChk,
        implVfprintfChk, notCapturing, Bool.false_eq_true, and_false,
        if_false, if_neg notLog, vfprintf, if_true, vprintf, ok_bind]
      exact ⟨_, rfl, rfl⟩

/-- A diverted text is a write to the buffer. -/
theorem popenPrintf_formatted
    (stdio : Stdio)
    (text : Text)
    (junk : Nat → Byte) :
    stdio.popenPrintf (.formatted text) junk =
      (stdio.popen.write text.bytes text.bytes.length junk >>=
        fun popen =>
          .ok ({ stdio with popen := popen },
            (text.bytes.length : Int))) := by
  unfold popenPrintf Hamachi.popenPrintf
  simp only [Vasprintf.passed, Vasprintf.ret]
  cases stdio.popen.write text.bytes text.bytes.length junk <;> rfl

/-- A text printed during a capture is a write to the buffer. -/
theorem implVprintfChk_captured
    (capturing : stdio.popen.isInPopen = true)
    (text : Text)
    (junk : Nat → Byte) :
    stdio.implVprintfChk (.formatted text) junk =
      (stdio.popen.write text.bytes text.bytes.length junk >>=
        fun popen =>
          .ok ({ stdio with popen := popen },
            (text.bytes.length : Int))) := by
  unfold implVprintfChk
  rw [if_pos capturing, popenPrintf_formatted]

/-- So is a text printed to `stdout` as a file. -/
theorem implVfprintfChk_captured
    (capturing : stdio.popen.isInPopen = true)
    (text : Text)
    (junk : Nat → Byte) :
    stdio.implVfprintfChk stdio.stdout (.formatted text) junk =
      (stdio.popen.write text.bytes text.bytes.length junk >>=
        fun popen =>
          let diverted := { stdio with popen := popen }
          .ok (if stdio.stdout = stdio.glue.logHandle then
              (diverted.vprintf (.formatted text)).1
            else
              diverted,
            (text.bytes.length : Int))) := by
  unfold implVfprintfChk
  rw [if_pos ⟨rfl, capturing⟩, popenPrintf_formatted]
  cases stdio.popen.write text.bytes text.bytes.length junk with
  | error fault =>
      rfl
  | ok popen =>
      simp only [ok_bind]
      split <;> rfl

/-- What a completed operation did to the buffer during a capture. -/
theorem perform_completed
    {op : StdoutOp}
    (capturing : stdio.popen.isInPopen = true)
    (performs : stdio.perform op junk = .ok next) :
    next.glue.tunFd = stdio.glue.tunFd ∧
      match op.diverted stdio.glue.tunFd with
      | none => next.popen = stdio.popen
      | some (buf, sz) => stdio.popen.write buf sz junk = .ok next.popen := by
  have printed
      {text : Text}
      {ans : Int}
      (prints :
        stdio.implVfprintfChk stdio.stdout (.formatted text) junk =
          .ok (next, ans)) :
      next.glue.tunFd = stdio.glue.tunFd ∧
        stdio.popen.write text.bytes text.bytes.length junk =
          .ok next.popen := by
    rw [implVfprintfChk_captured capturing] at prints
    obtain ⟨popen, writes, isNext⟩ := bind_eq_ok.mp prints
    obtain ⟨rfl, _⟩ := Prod.mk.inj (Except.ok.inj isNext)
    split
    · exact ⟨rfl, writes⟩
    · exact ⟨rfl, writes⟩
  have diverts
      {text : Text}
      {ans : Int}
      (prints :
        stdio.implVprintfChk (.formatted text) junk = .ok (next, ans)) :
      next.glue.tunFd = stdio.glue.tunFd ∧
        stdio.popen.write text.bytes text.bytes.length junk =
          .ok next.popen := by
    rw [implVprintfChk_captured capturing] at prints
    obtain ⟨popen, writes, isNext⟩ := bind_eq_ok.mp prints
    cases isNext
    exact ⟨rfl, writes⟩
  cases op with
  | printfChk text =>
      obtain ⟨⟨printed, _⟩, prints, isNext⟩ := bind_eq_ok.mp performs
      cases isNext
      exact diverts prints
  | vprintfChk text =>
      obtain ⟨⟨printed, _⟩, prints, isNext⟩ := bind_eq_ok.mp performs
      cases isNext
      exact diverts prints
  | fprintfChk text =>
      obtain ⟨⟨_, _⟩, prints, isNext⟩ := bind_eq_ok.mp performs
      cases isNext
      exact printed prints
  | vfprintfChk text =>
      obtain ⟨⟨_, _⟩, prints, isNext⟩ := bind_eq_ok.mp performs
      cases isNext
      exact printed prints
  | fwrite sz nmemb data whole result =>
      obtain ⟨⟨_, _⟩, writes, isNext⟩ := bind_eq_ok.mp performs
      cases isNext
      unfold implFwrite at writes
      rw [if_pos ⟨rfl, capturing⟩] at writes
      obtain ⟨popen, writesPopen, isWritten⟩ := bind_eq_ok.mp writes
      cases isWritten
      exact ⟨rfl, writesPopen⟩
  | puts s =>
      cases performs
      exact ⟨rfl, rfl⟩
  | write buf result =>
      obtain ⟨⟨_, _⟩, writes, isNext⟩ := bind_eq_ok.mp performs
      cases isNext
      unfold implWrite at writes
      by_cases isTun : 1 = stdio.glue.tunFd
      · rw [if_pos isTun] at writes
        obtain ⟨write, _, isWritten⟩ := bind_eq_ok.mp writes
        cases isWritten
        simp [StdoutOp.diverted, isTun]
      · rw [if_neg isTun, if_pos ⟨rfl, capturing⟩] at writes
        obtain ⟨popen, writesPopen, isWritten⟩ := bind_eq_ok.mp writes
        cases isWritten
        rw [StdoutOp.diverted, if_neg isTun, buf.sized]
        exact ⟨rfl, writesPopen⟩

/-- An operation returns during a capture when its write to the buffer does. -/
theorem perform_returns
    {op : StdoutOp}
    (capturing : stdio.popen.isInPopen = true)
    (returns :
      ∀ buf sz, op.diverted stdio.glue.tunFd = some (buf, sz) →
        ∃ popen, stdio.popen.write buf sz junk = .ok popen) :
    ∃ next, stdio.perform op junk = .ok next := by
  cases op with
  | printfChk text =>
      obtain ⟨popen, writes⟩ := returns text.bytes text.bytes.length rfl
      simp only [perform, implPrintfChk,
        implVprintfChk_captured capturing, writes, ok_bind]
      exact ⟨_, rfl⟩
  | vprintfChk text =>
      obtain ⟨popen, writes⟩ := returns text.bytes text.bytes.length rfl
      simp only [perform, implVprintfChk_captured capturing, writes,
        ok_bind]
      exact ⟨_, rfl⟩
  | fprintfChk text =>
      obtain ⟨popen, writes⟩ := returns text.bytes text.bytes.length rfl
      simp only [perform, implFprintfChk,
        implVfprintfChk_captured capturing, writes, ok_bind]
      exact ⟨_, rfl⟩
  | vfprintfChk text =>
      obtain ⟨popen, writes⟩ := returns text.bytes text.bytes.length rfl
      simp only [perform, implVfprintfChk_captured capturing, writes,
        ok_bind]
      exact ⟨_, rfl⟩
  | fwrite sz nmemb data whole result =>
      obtain ⟨popen, writes⟩ := returns data _ rfl
      simp only [perform, implFwrite, true_and, if_pos capturing, writes,
        ok_bind]
      exact ⟨_, rfl⟩
  | puts s =>
      exact ⟨_, rfl⟩
  | write buf result =>
      by_cases isTun : 1 = stdio.glue.tunFd
      · obtain ⟨write, writes⟩ :=
          tuntapWrite_returns stdio.glue.tuntap buf result
        simp only [perform, implWrite, if_pos isTun, writes, ok_bind]
        exact ⟨_, rfl⟩
      · obtain ⟨popen, writes⟩ := returns buf.bytes buf.bytes.length
          (by rw [StdoutOp.diverted, if_neg isTun])
        rw [buf.sized] at writes
        simp only [perform, implWrite, if_neg isTun, true_and,
          if_pos capturing, writes, ok_bind]
        exact ⟨_, rfl⟩

/-- A completed operation appended what it captures. -/
theorem perform_captures
    {op : StdoutOp}
    (holds : stdio.popen.Holds held)
    (capturing : stdio.popen.isInPopen = true)
    (performs : stdio.perform op junk = .ok next) :
    next.popen.Holds (held ++ op.captured stdio.glue.tunFd) ∧
      next.popen.isInPopen = true ∧
      next.glue.tunFd = stdio.glue.tunFd := by
  obtain ⟨sameTun, effect⟩ := perform_completed capturing performs
  unfold StdoutOp.captured
  cases diverts : op.diverted stdio.glue.tunFd with
  | none =>
      rw [diverts] at effect
      simp only at effect
      rw [List.append_nil, effect]
      exact ⟨holds, capturing, sameTun⟩
  | some written =>
      rw [diverts] at effect
      obtain ⟨nextHolds, sameFlag⟩ := holds.write_completed effect
      exact ⟨nextHolds, sameFlag.trans capturing, sameTun⟩

/-- Completed operations appended what they capture, in order. -/
theorem performAll_captures
    {calls : List (StdoutOp × (Nat → Byte))}
    (holds : stdio.popen.Holds held)
    (capturing : stdio.popen.isInPopen = true)
    (performs : stdio.performAll calls = .ok final) :
    final.popen.Holds
      (held ++ calls.flatMap fun call =>
        call.1.captured stdio.glue.tunFd) := by
  induction calls generalizing stdio held with
  | nil =>
      cases performs
      simpa using holds
  | cons call rest inductionHypothesis =>
      obtain ⟨next, first, later⟩ :=
        bind_eq_ok.mp (List.foldlM_cons.symm.trans performs)
      obtain ⟨nextHolds, nextCapturing, sameTun⟩ :=
        perform_captures holds capturing first
      have finalHolds := inductionHypothesis nextHolds nextCapturing later
      rw [sameTun, List.append_assoc] at finalHolds
      rwa [List.flatMap_cons]

/-- Without `puts` up to `2 ^ 63` bytes are captured. -/
theorem performAll_returns
    {calls : List (StdoutOp × (Nat → Byte))}
    (holds : stdio.popen.Holds held)
    (capturing : stdio.popen.isInPopen = true)
    (noPuts : ∀ call ∈ calls, call.1.isPuts = false)
    (small :
      held.length +
        (calls.flatMap fun call =>
          call.1.bytes stdio.glue.tunFd).length ≤ 2 ^ 63) :
    ∃ final,
      stdio.performAll calls = .ok final ∧
        final.popen.Holds
          (held ++ calls.flatMap fun call =>
            call.1.bytes stdio.glue.tunFd) := by
  induction calls generalizing stdio held with
  | nil =>
      exact ⟨stdio, rfl, by simpa using holds⟩
  | cons call rest inductionHypothesis =>
      obtain ⟨notPuts, restNoPuts⟩ := List.forall_mem_cons.mp noPuts
      rw [List.flatMap_cons, List.length_append] at small
      have short :
          (call.1.bytes stdio.glue.tunFd).length ≤ 2 ^ 63 := by
        omega
      have whole := StdoutOp.diverted_whole notPuts short
      have isCaptured :
          call.1.captured stdio.glue.tunFd =
            call.1.bytes stdio.glue.tunFd := by
        unfold StdoutOp.captured
        rcases whole with ⟨nothing, empty⟩ | everything
        · rw [nothing, empty]
        · rw [everything]
          exact List.take_length
      obtain ⟨next, performs⟩ :
          ∃ next, stdio.perform call.1 call.2 = .ok next := by
        refine perform_returns capturing ?_
        intro buf sz diverts
        rcases whole with ⟨nothing, _⟩ | everything
        · rw [nothing] at diverts
          cases diverts
        · rw [everything] at diverts
          cases diverts
          exact holds.write_returns call.2 (by omega)
      obtain ⟨nextHolds, nextCapturing, sameTun⟩ :=
        perform_captures holds capturing performs
      rw [isCaptured] at nextHolds
      obtain ⟨final, performsRest, finalHolds⟩ :=
        inductionHypothesis nextHolds nextCapturing restNoPuts
          (by rw [sameTun, List.length_append]; omega)
      refine ⟨final, ?_, ?_⟩
      · rw [performAll, List.foldlM_cons, performs]
        exact performsRest
      · rw [sameTun, List.append_assoc] at finalHolds
        rwa [List.flatMap_cons]

/-- Less is captured than would have been written when there is a `puts`. -/
theorem flatMap_captured_length
    (tunFd : Int)
    (calls : List (StdoutOp × (Nat → Byte))) :
    (calls.flatMap fun call => call.1.captured tunFd).length ≤
        (calls.flatMap fun call => call.1.bytes tunFd).length ∧
      ((∃ call ∈ calls, call.1.isPuts = true) →
        (calls.flatMap fun call => call.1.captured tunFd).length <
          (calls.flatMap fun call => call.1.bytes tunFd).length) := by
  induction calls with
  | nil =>
      simp
  | cons call rest inductionHypothesis =>
      obtain ⟨atMost, less⟩ := inductionHypothesis
      have first := call.1.captured_length_le tunFd
      simp only [List.flatMap_cons, List.length_append]
      refine ⟨by omega, ?_⟩
      rintro ⟨found, member, isPuts⟩
      rcases List.mem_cons.mp member with rfl | inRest
      · have shorter := StdoutOp.captured_length_lt tunFd isPuts
        omega
      · have shorter := less ⟨found, inRest, isPuts⟩
        omega

/-- Up to the buffer, `impl_write` is the one over the bytes that it holds. -/
theorem implWrite_view
    {cnt : Nat}
    {fd result ret : Int}
    {buf : Buffer cnt}
    (holds : stdio.popen.Holds held)
    (writes : stdio.implWrite fd buf result junk = .ok (next, ret)) :
    stdio.view.implWrite fd buf result = .ok (next.view, ret) := by
  unfold implWrite at writes
  unfold Glue.implWrite view
  by_cases isTun : fd = stdio.glue.tunFd
  · rw [if_pos isTun] at writes ⊢
    obtain ⟨write, writesTap, isNext⟩ := bind_eq_ok.mp writes
    cases isNext
    simp only [writesTap, ok_bind]
  · rw [if_neg isTun] at writes ⊢
    by_cases diverts : fd = 1 ∧ stdio.popen.isInPopen
    · rw [if_pos diverts] at writes ⊢
      obtain ⟨popen, writesPopen, isNext⟩ := bind_eq_ok.mp writes
      cases isNext
      obtain ⟨popenHolds, sameFlag⟩ := holds.write_completed writesPopen
      rw [popenHolds.contents, holds.contents, sameFlag,
        List.take_of_length_le buf.sized.le]
    · rw [if_neg diverts] at writes ⊢
      split at writes
      · cases writes
        rfl
      · cases writes
        rfl

/-- A capture delivers all that is written to `stdout`, in order, exactly when
nothing is written with `puts` and the whole fits the buffer. -/
theorem captures_iff
    (glue : Glue)
    (stdout : Addr)
    (terminal : List Byte)
    (calls : List (StdoutOp × (Nat → Byte))) :
    (capturing glue stdout terminal).Captures calls ↔
      (∀ call ∈ calls, call.1.isPuts = false) ∧
        (calls.flatMap fun call =>
          call.1.bytes glue.tunFd).length ≤ 2 ^ 63 := by
  have start : (capturing glue stdout terminal).popen.Holds [] :=
    { Popen.holds_empty with }
  constructor
  · rintro ⟨final, performs, delivers⟩
    have holds := performAll_captures start rfl performs
    have same := holds.contents.symm.trans delivers
    rw [List.nil_append] at same
    constructor
    · intro call member
      by_contra isPuts
      have shorter := (flatMap_captured_length glue.tunFd calls).2
        ⟨call, member, by simpa using isPuts⟩
      exact shorter.ne (congrArg List.length same)
    · have length := holds.length_le
      rwa [List.nil_append, same] at length
  · rintro ⟨noPuts, small⟩
    have whole :
        ([] : List Byte).length +
          (calls.flatMap fun call =>
            call.1.bytes glue.tunFd).length ≤ 2 ^ 63 := by
      rwa [List.length_nil, Nat.zero_add]
    obtain ⟨final, performs, holds⟩ :=
      performAll_returns start rfl noPuts whole
    exact ⟨final, performs, by simpa using holds.contents⟩

/-- A word that is printed, and a line end that is written, are captured. -/
theorem captures_lines :
    (capturing Glue.initial 4096 []).Captures
      [(.printfChk ⟨[111, 107], by decide⟩, fun _ => 0),
        (.write (.of [10]) 1, fun _ => 8)] :=
  (captures_iff Glue.initial 4096 [] _).mpr ⟨by decide, by decide⟩

/-- A line printed with `puts` is not captured. -/
theorem not_captures_puts :
    ¬ ∀ (glue : Glue) (stdout : Addr) (terminal : List Byte)
      (calls : List (StdoutOp × (Nat → Byte))),
      (capturing glue stdout terminal).Captures calls := by
  intro captures
  obtain ⟨final, performs, delivers⟩ :=
    captures Glue.initial 4096 [] [(.puts [104, 105], fun _ => 0)]
  cases performs
  cases delivers

end Stdio

end Hamachi
