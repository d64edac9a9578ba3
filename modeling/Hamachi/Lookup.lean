import Hamachi.BinarySearch
import Mathlib.Data.Char
import Mathlib.Data.List.Sort

namespace Hamachi

/-!
# Symbol lookup of `lookup.c`

Names are NUL-terminated strings of characters `1..127`, on which the signed
`char` comparisons of the source are comparisons of codes.  Reading the
terminator of a name yields `nul`; reading past it, or outside the table,
faults.
-/

/-- The string terminator. -/
def nul : Char := '\x00'

/-- A character that may stand before the terminator. -/
def isNameChar (char : Char) : Bool :=
  nul < char && char ≤ '\x7f'

/-- A NUL-terminated string, without its terminator. -/
@[ext] structure Name where
  chars : List Char
  ascii : chars.all isNameChar = true
  deriving DecidableEq

namespace Name

/-- The name that a string literal denotes. -/
def ofLiteral
    (literal : String)
    (ascii : literal.toList.all isNameChar = true) :
    Name :=
  ⟨literal.toList, ascii⟩

/-- `name[idx]`. -/
def charAt (name : Name) (idx : Nat) : Except Fault Char :=
  if idx ≤ name.chars.length then
    .ok (name.chars.getD idx nul)
  else
    .error .outOfBounds

theorem nul_lt
    {name : Name}
    {char : Char}
    (member : char ∈ name.chars) :
    nul < char := by
  have allowed := List.all_eq_true.mp name.ascii char member
  simp only [isNameChar, Bool.and_eq_true, decide_eq_true_eq] at allowed
  exact allowed.1

end Name

/-- What the `value` column points at, as a symbol of the linked binary. -/
inductive SymbolValue where
  | null
  | addressOf (linkerSymbol : String)
  deriving DecidableEq

/-- `struct symbol_desc`. -/
structure SymbolDesc where
  name : Name
  value : SymbolValue
  isFn : Bool
  relocAddr : Addr

/-- An initialiser of `symbols[]`, whose `reloc_addr` is left out. -/
def SymbolDesc.row
    (literal : String)
    (ascii : literal.toList.all isNameChar = true)
    (value : SymbolValue)
    (isFn : Bool) :
    SymbolDesc where
  name := .ofLiteral literal ascii
  value := value
  isFn := isFn
  relocAddr := 0

/-- A non-null `struct symbol_desc*`. -/
inductive SymbolPointer where
  | symbols (index : Int)
  | auxsymbols (index : Int)
  deriving DecidableEq

/-- `symbols[m].name[idx]`. -/
def column
    (symbols : List SymbolDesc)
    (idx : Nat)
    (m : Int) :
    Except Fault Char :=
  if m < 0 then
    .error .outOfBounds
  else
    match symbols[m.toNat]? with
    | none => .error .outOfBounds
    | some row => row.name.charAt idx

/-- The `for(;;)` loop of `lookup_in`; each iteration advances `idx`. -/
def lookupLoop
    (name : Name)
    (symbols : List SymbolDesc) :
    Nat → Int → Int → Nat → Except Fault (Option Int)
  | 0, _, _, _ => .error .outOfFuel
  | fuel + 1, start, stop, idx => do
      let char ← name.charAt idx
      let h ← bisect
        (fun m => do return char ≤ (← column symbols idx m))
        (stop - start).toNat (start - 1) stop
      if h = stop then
        return none
      else if char < (← column symbols idx h) then
        return none
      else if char = nul then
        return some h
      else
        let stop' ← bisect
          (fun m => do return char < (← column symbols idx m))
          (stop - h).toNat (h - 1) stop
        lookupLoop name symbols fuel h stop' (idx + 1)

/-- `lookup_in`, returning an index into the table.  The loop leaves at the
terminator of `name` at the latest. -/
def lookupIn
    (name : Name)
    (symbols : List SymbolDesc)
    (nsymbols : Int) :
    Except Fault (Option Int) :=
  lookupLoop name symbols (name.chars.length + 1) 0 nsymbols 0

/-- `symbols[]`. -/
def symbols : List SymbolDesc :=
  [
    .row "__ctype_b_loc" rfl (.addressOf "__ctype_b_loc") true,
    .row "__ctype_tolower_loc" rfl (.addressOf "__ctype_tolower_loc") true,
    .row "__cxa_atexit" rfl (.addressOf "impl___cxa_atexit") true,
    .row "__errno_location" rfl (.addressOf "impl___errno_location") true,
    .row "__fprintf_chk" rfl (.addressOf "impl___fprintf_chk") true,
    .row "__fxstat" rfl (.addressOf "impl___fxstat64") true,
    .row "__fxstat64" rfl (.addressOf "impl___fxstat64") true,
    .row "__gmon_start__" rfl .null true,
    .row "__libc_start_main" rfl (.addressOf "impl___libc_start_main") true,
    .row "__memcpy_chk" rfl (.addressOf "impl___memcpy_chk") true,
    .row "__printf_chk" rfl (.addressOf "impl___printf_chk") true,
    .row "__res_search" rfl (.addressOf "res_search") true,
    .row "__snprintf_chk" rfl (.addressOf "impl___snprintf_chk") true,
    .row "__sprintf_chk" rfl (.addressOf "impl___sprintf_chk") true,
    .row "__strcpy_chk" rfl (.addressOf "impl___strcpy_chk") true,
    .row "__vfprintf_chk" rfl (.addressOf "impl___vfprintf_chk") true,
    .row "__vprintf_chk" rfl (.addressOf "impl___vprintf_chk") true,
    .row "__vsnprintf_chk" rfl (.addressOf "impl___vsnprintf_chk") true,
    .row "__xstat64" rfl (.addressOf "impl___xstat64") true,
    .row "accept" rfl (.addressOf "impl_accept") true,
    .row "bind" rfl (.addressOf "impl_bind") true,
    .row "chmod" rfl (.addressOf "impl_chmod") true,
    .row "close" rfl (.addressOf "impl_close") true,
    .row "connect" rfl (.addressOf "impl_connect") true,
    .row "daemon" rfl (.addressOf "impl_daemon") true,
    .row "epoll_create" rfl (.addressOf "impl_epoll_create") true,
    .row "epoll_ctl" rfl (.addressOf "impl_epoll_ctl") true,
    .row "epoll_wait" rfl (.addressOf "impl_epoll_wait") true,
    .row "exit" rfl (.addressOf "impl_exit") true,
    .row "fclose" rfl (.addressOf "impl_fclose") true,
    .row "fcntl" rfl (.addressOf "impl_fcntl") true,
    .row "fflush" rfl (.addressOf "impl_fflush") true,
    .row "fileno" rfl (.addressOf "impl_fileno") true,
    .row "flock" rfl (.addressOf "flock") true,
    .row "fopen64" rfl (.addressOf "impl_fopen64") true,
    .row "fread" rfl (.addressOf "impl_fread") true,
    .row "free" rfl (.addressOf "impl_free") true,
    .row "freeaddrinfo" rfl (.addressOf "impl_freeaddrinfo") true,
    .row "fsync" rfl (.addressOf "fsync") true,
    .row "fwrite" rfl (.addressOf "impl_fwrite") true,
    .row "getaddrinfo" rfl (.addressOf "impl_getaddrinfo") true,
    .row "getenv" rfl (.addressOf "impl_getenv") true,
    .row "gethostname" rfl (.addressOf "impl_gethostname") true,
    .row "getopt" rfl (.addressOf "impl_getopt") true,
    .row "getpid" rfl (.addressOf "getpid") true,
    .row "getpeername" rfl (.addressOf "impl_getpeername") true,
    .row "getsockname" rfl (.addressOf "impl_getsockname") true,
    .row "getsockopt" rfl (.addressOf "impl_getsockopt") true,
    .row "gettimeofday" rfl (.addressOf "gettimeofday") true,
    .row "getuid" rfl (.addressOf "impl_getuid") true,
    .row "htonl" rfl (.addressOf "htonl") true,
    .row "htons" rfl (.addressOf "htons") true,
    .row "inet_addr" rfl (.addressOf "inet_addr") true,
    .row "inet_ntop" rfl (.addressOf "inet_ntop") true,
    .row "ioctl" rfl (.addressOf "impl_ioctl") true,
    .row "isspace" rfl (.addressOf "isspace") true,
    .row "listen" rfl (.addressOf "listen") true,
    .row "localtime" rfl (.addressOf "impl_localtime") true,
    .row "malloc" rfl (.addressOf "impl_malloc") true,
    .row "memchr" rfl (.addressOf "memchr") true,
    .row "memcmp" rfl (.addressOf "memcmp") true,
    .row "memcpy" rfl (.addressOf "memcpy") true,
    .row "memmove" rfl (.addressOf "memmove") true,
    .row "memset" rfl (.addressOf "memset") true,
    .row "mkdir" rfl (.addressOf "impl_mkdir") true,
    .row "ns_initparse" rfl (.addressOf "ns_initparse") true,
    .row "ns_msg_getflag" rfl (.addressOf "ns_msg_getflag") true,
    .row "ns_parserr" rfl (.addressOf "ns_parserr") true,
    .row "open" rfl (.addressOf "impl_open64") true,
    .row "open64" rfl (.addressOf "impl_open64") true,
    .row "opendir" rfl (.addressOf "impl_opendir") true,
    .row "optarg" rfl (.addressOf "zero") false,
    .row "opterr" rfl (.addressOf "zero") false,
    .row "optind" rfl (.addressOf "zero") false,
    .row "optopt" rfl (.addressOf "zero") false,
    .row "pipe" rfl (.addressOf "pipe") true,
    .row "poll" rfl (.addressOf "poll") true,
    .row "pthread_create" rfl (.addressOf "pthread_create") true,
    .row "pthread_exit" rfl (.addressOf "pthread_exit") true,
    .row "pthread_mutex_init" rfl (.addressOf "impl_pthread_mutex_init") true,
    .row "pthread_mutex_lock" rfl (.addressOf "pthread_mutex_lock") true,
    .row "puts" rfl (.addressOf "puts") true,
    .row "qsort" rfl (.addressOf "qsort") true,
    .row "rand" rfl (.addressOf "rand") true,
    .row "read" rfl (.addressOf "impl_read") true,
    .row "realloc" rfl (.addressOf "impl_realloc") true,
    .row "recv" rfl (.addressOf "impl_recv") true,
    .row "recvfrom" rfl (.addressOf "impl_recvfrom") true,
    .row "send" rfl (.addressOf "impl_send") true,
    .row "sendto" rfl (.addressOf "impl_sendto") true,
    .row "setsockopt" rfl (.addressOf "impl_setsockopt") true,
    .row "sigaction" rfl (.addressOf "impl_sigaction") true,
    .row "sigemptyset" rfl (.addressOf "impl_sigemptyset") true,
    .row "signal" rfl (.addressOf "impl_signal") true,
    .row "snprintf" rfl (.addressOf "snprintf") true,
    .row "socket" rfl (.addressOf "impl_socket") true,
    .row "sscanf" rfl (.addressOf "sscanf") true,
    .row "stdout" rfl (.addressOf "p_stdout") false,
    .row "strchr" rfl (.addressOf "strchr") true,
    .row "strcmp" rfl (.addressOf "strcmp") true,
    .row "strcpy" rfl (.addressOf "strcpy") true,
    .row "strdup" rfl (.addressOf "impl_strdup") true,
    .row "strerror" rfl (.addressOf "strerror") true,
    .row "strlen" rfl (.addressOf "strlen") true,
    .row "strncasecmp" rfl (.addressOf "strncasecmp") true,
    .row "strncmp" rfl (.addressOf "strncmp") true,
    .row "strncpy" rfl (.addressOf "strncpy") true,
    .row "strrchr" rfl (.addressOf "strrchr") true,
    .row "strstr" rfl (.addressOf "strstr") true,
    .row "strtol" rfl (.addressOf "strtol") true,
    .row "system" rfl (.addressOf "impl_system") true,
    .row "time" rfl (.addressOf "time") true,
    .row "tolower" rfl (.addressOf "tolower") true,
    .row "uname" rfl (.addressOf "impl_uname") true,
    .row "unlink" rfl (.addressOf "impl_unlink") true,
    .row "usleep" rfl (.addressOf "usleep") true,
    .row "write" rfl (.addressOf "impl_write") true
  ]

/-- `lookup`, given the two statics `auxsymbols` and `nauxsymbols`. -/
def lookup
    (name : Name)
    (auxsymbols : List SymbolDesc)
    (nauxsymbols : Int) :
    Except Fault (Option SymbolPointer) := do
  match ← lookupIn name symbols symbols.length with
  | some index =>
      return some (.symbols index)
  | none =>
      return (← lookupIn name auxsymbols nauxsymbols).map .auxsymbols

end Hamachi
