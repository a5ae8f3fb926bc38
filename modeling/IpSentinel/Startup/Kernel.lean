import IpSentinel.Foundation.Calls
import IpSentinel.Net.ArpMessage

/-!
# System calls of the startup

The calls that the program makes before its loops, with the answers the operating system may give
and what they do to the process: its ids, its root and working directories, and its table of
descriptors. The functions of `wrappers.h` are `checked` calls, which end the process with status 1
on a failure.
-/

set_option autoImplicit false

namespace IpSentinel.Startup

open Foundation

/-- The name of a file, a directory, a user, a group or an interface. -/
abbrev Name := List Char

/-- The flags of `open`: those of the log files, of the pid file, and of the configuration. -/
inductive OpenFlags where
  /-- `O_WRONLY|O_CREAT|O_APPEND|O_NONBLOCK` -/
  | append
  /-- `O_WRONLY|O_CREAT|O_TRUNC` -/
  | truncate
  /-- `O_RDONLY` -/
  | readOnly
  deriving DecidableEq, Repr

/-- The arguments of `signal`. -/
inductive Handler where
  /-- `SIGCHLD` with `SIG_IGN` -/
  | ignoreChild
  /-- `SIGHUP` with `sigHup` -/
  | hangup
  deriving DecidableEq, Repr

/-- `struct passwd`. -/
structure Passwd where
  pwUid : Nat
  pwGid : Nat
  pwDir : Name
  deriving DecidableEq, Repr

/-- The calls. -/
inductive Call where
  | openFile (path : Name) (flags : OpenFlags) (mode : Nat)
  | close (fd : Nat)
  | dup2 (oldfd newfd : Nat)
  /-- `fcntl(fd, F_SETFD, FD_CLOEXEC)` -/
  | setCloexec (fd : Nat)
  | chdir (path : Name)
  | chroot (path : Name)
  | setgroups (list : List Nat)
  | setgid (gid : Nat)
  | setuid (uid : Nat)
  | setsid
  | fork
  | pipe
  /-- `socket(PF_PACKET, SOCK_RAW, protocol)` -/
  | socket (protocol : UInt16)
  /-- `bind` to the protocol and the interface -/
  | bind (sock : Nat) (protocol : UInt16) (ifindex : Int)
  /-- `ioctl` with `SIOCGIFINDEX` -/
  | ifIndex (sock : Nat) (iface : Name)
  /-- `ioctl` with `SIOCGIFHWADDR` -/
  | ifHwaddr (sock : Nat) (iface : Name)
  | getpwuid (uid : Nat)
  | getpwnam (name : Name)
  | getgrnam (name : Name)
  | write (fd : Option Nat) (text : List Char)
  | signal (handler : Handler)
  | perror (msg : String)
  /-- `printHelp` -/
  | printHelp (cmd : Name)
  /-- `printVersion` -/
  | printVersion

/-- What a call brings when it succeeds; `fork` brings 0 in the child. -/
abbrev Result : Call → Type
  | .openFile .. => Nat
  | .socket .. => Nat
  | .fork => Nat
  | .pipe => Nat × Nat
  | .ifIndex .. => Int
  | .ifHwaddr .. => UInt16 × Vector UInt8 14
  | .getpwuid .. => Passwd
  | .getpwnam .. => Passwd
  | .getgrnam .. => Nat
  | _ => Unit

/-- The answer of a call: `none` is the -1 or the null pointer of a failure. -/
abbrev Answer (c : Call) : Type := Option (Result c)

/-- The programs of the startup. -/
abbrev Prog (α : Type) : Type := Program Call Answer α

/-! ## wrappers.h -/

/-- `FatalErrnoError` on a failure. -/
def fatalErrnoError {α : Type} (retval : Nat) (msg : String) : Prog α := do
  let _ ← Program.ask (.perror msg)
  .exit retval

/-- What the functions of `wrappers.h` have in common: a failure ends the process. -/
def checked (c : Call) (msg : String) : Prog (Result c) := do
  match ← Program.ask c with
  | some res => pure res
  | none => fatalErrnoError 1 msg

def eopen (fname : Name) (flags : OpenFlags) (mode : Nat) : Prog Nat :=
  checked (.openFile fname flags mode) "open()"

def eclose (s : Nat) : Prog Unit := checked (.close s) "close()"

def edup2 (oldfd newfd : Nat) : Prog Unit := checked (.dup2 oldfd newfd) "dup2()"

/-- `SETCLOEXEC`, by `Efcntl_l`. -/
def setcloexec (fd : Nat) : Prog Unit := checked (.setCloexec fd) "fcntl()"

def echdir (path : Name) : Prog Unit := checked (.chdir path) "chdir()"

def echroot (path : Name) : Prog Unit := checked (.chroot path) "chroot()"

def esetgroups (list : List Nat) : Prog Unit := checked (.setgroups list) "setgroups()"

def esetgid (gid : Nat) : Prog Unit := checked (.setgid gid) "setgid()"

def esetuid (uid : Nat) : Prog Unit := checked (.setuid uid) "setuid()"

def esetsid : Prog Unit := checked .setsid "setsid()"

def efork : Prog Nat := checked .fork "fork()"

def epipe : Prog (Nat × Nat) := checked .pipe "pipe()"

def esocket (protocol : UInt16) : Prog Nat := checked (.socket protocol) "socket()"

def ebind (sock : Nat) (protocol : UInt16) (ifindex : Int) : Prog Unit :=
  checked (.bind sock protocol ifindex) "bind()"

def egetpwnam (name : Name) : Prog Passwd := checked (.getpwnam name) "getpwnam()"

def egetgrnam (name : Name) : Prog Nat := checked (.getgrnam name) "getgrnam()"

def ewrite (fd : Option Nat) (text : List Char) : Prog Unit := checked (.write fd text) "write()"

def esignal (handler : Handler) : Prog Unit := checked (.signal handler) "signal()"

/-- `Vwrite`, which ignores failures. -/
def vwrite (fd : Option Nat) (text : List Char) : Prog Unit := do
  let _ ← Program.ask (.write fd text)
  pure ()

/-- A message on the standard error output. -/
def writeMsg (text : String) : Prog Unit := vwrite (some 2) text.toList

/-! ## The operating system -/

/-- The directories, and what entering a path from a root and a working directory leads to. An
absolute path does not depend on the working directory. -/
structure FileTree where
  Dir : Type
  enter : Dir → Dir → Name → Option Dir
  enter_absolute : ∀ root cwd cwd' path, path.head? = some '/' →
    enter root cwd path = enter root cwd' path

/-- The user and group databases. -/
structure Users where
  byUid : Nat → Option Passwd
  byName : Name → Option Passwd
  groupByName : Name → Option Nat

/-- What a descriptor refers to; a named file with the user and the directories of its `open`. -/
inductive File (tree : FileTree) where
  | named (path : Name) (flags : OpenFlags) (uid : Nat) (root cwd : tree.Dir)
  | socket
  | pipeRead
  | pipeWrite
  /-- Open before the program starts. -/
  | inherited (n : Nat)

/-- A descriptor, with its flag `FD_CLOEXEC`. -/
structure Descriptor (tree : FileTree) where
  file : File tree
  cloexec : Bool

/-- A process: its user and groups, its directories, its descriptors, whether it leads a session,
and what its last `fork` has answered. -/
structure Process (tree : FileTree) where
  uid : Nat
  gid : Nat
  groups : List Nat
  root : tree.Dir
  cwd : tree.Dir
  fds : Nat → Option (Descriptor tree)
  leader : Bool
  forked : Option Nat

namespace Process

variable {tree : FileTree}

/-- The process with another entry in its table of descriptors. -/
def withFd (s : Process tree) (fd : Nat) (d : Option (Descriptor tree)) : Process tree :=
  { s with fds := Function.update s.fds fd d }

/-- The process with another table of descriptors. -/
def withFds (s : Process tree) (fds : Nat → Option (Descriptor tree)) : Process tree :=
  { s with fds }

@[simp] theorem fds_withFd_self (s : Process tree) (fd : Nat) (d : Option (Descriptor tree)) :
    (s.withFd fd d).fds fd = d :=
  Function.update_self ..

@[simp] theorem fds_withFd_of_ne {s : Process tree} {fd fd' : Nat} (h : fd' ≠ fd)
    (d : Option (Descriptor tree)) : (s.withFd fd d).fds fd' = s.fds fd' :=
  Function.update_of_ne h ..

/-- A free descriptor is another one than one that has just been opened. -/
theorem free_of_withFd {s : Process tree} {fd fd' : Nat} {d : Descriptor tree}
    (h : (s.withFd fd (some d)).fds fd' = none) : fd' ≠ fd ∧ s.fds fd' = none := by
  have hne : fd' ≠ fd := by
    rintro rfl
    rw [fds_withFd_self] at h
    cases h
  rw [fds_withFd_of_ne hne] at h
  exact ⟨hne, h⟩

theorem withFd_withFd (s : Process tree) (fd : Nat) (d d' : Option (Descriptor tree)) :
    (s.withFd fd d).withFd fd d' = s.withFd fd d' := by
  rw [withFd, withFd, Function.update_idem]
  rfl

/-- A new descriptor that is closed again leaves no trace. -/
theorem withFd_close {s : Process tree} {fd : Nat} (h : s.fds fd = none)
    (d : Option (Descriptor tree)) : (s.withFd fd d).withFd fd none = s := by
  rw [withFd, withFd, Function.update_idem, ← h, Function.update_eq_self]

end Process

/-- What a call may do to the process, by its answer. A failing call does nothing, and so do the
calls that only look something up; new descriptors are free ones; `chroot` and `setgroups` need the
privileges of uid 0. -/
def World {tree : FileTree} (users : Users) (s : Process tree) (c : Call) (answer : Answer c)
    (t : Process tree) : Prop :=
  match c, answer with
  | .openFile path flags _, some fd =>
    s.fds fd = none ∧ t = s.withFd fd (some ⟨.named path flags s.uid s.root s.cwd, false⟩)
  | .close fd, some _ => (s.fds fd).isSome ∧ t = s.withFd fd none
  | .dup2 oldfd newfd, some _ =>
    ∃ d, s.fds oldfd = some d ∧
      t = if oldfd = newfd then s else s.withFd newfd (some { d with cloexec := false })
  | .setCloexec fd, some _ =>
    ∃ d, s.fds fd = some d ∧ t = s.withFd fd (some { d with cloexec := true })
  | .chdir path, some _ =>
    ∃ dir, tree.enter s.root s.cwd path = some dir ∧ t = { s with cwd := dir }
  | .chroot path, some _ =>
    s.uid = 0 ∧ ∃ dir, tree.enter s.root s.cwd path = some dir ∧ t = { s with root := dir }
  | .setgroups list, some _ => s.uid = 0 ∧ t = { s with groups := list }
  | .setgid gid, some _ => t = { s with gid }
  | .setuid uid, some _ => (s.uid = 0 ∨ s.uid = uid) ∧ t = { s with uid }
  | .setsid, some _ => t = { s with leader := true }
  | .fork, some pid => t = { s with leader := s.leader && pid ≠ 0, forked := some pid }
  | .pipe, some (fd₀, fd₁) =>
    fd₀ ≠ fd₁ ∧ s.fds fd₀ = none ∧ s.fds fd₁ = none ∧
      t = (s.withFd fd₀ (some ⟨.pipeRead, false⟩)).withFd fd₁ (some ⟨.pipeWrite, false⟩)
  | .socket _, some fd => s.fds fd = none ∧ t = s.withFd fd (some ⟨.socket, false⟩)
  | .getpwuid uid, answer => answer = users.byUid uid ∧ t = s
  | .getpwnam name, answer => answer = users.byName name ∧ t = s
  | .getgrnam name, answer => answer = users.groupByName name ∧ t = s
  | _, _ => t = s

/-- Writing does nothing to the process. -/
theorem world_write {tree : FileTree} {users : Users} {s t : Process tree} {fd : Option Nat}
    {text : List Char} {answer : Answer (.write fd text)}
    (h : World users s (.write fd text) answer t) : t = s := by
  cases answer <;> exact h

/-! ## A system that can be run -/

section Executable

variable {tree : FileTree}

/-- The lowest free descriptor of the first 16. -/
def Process.lowestFree (s : Process tree) : Option Nat :=
  (List.range 16).find? fun fd => (s.fds fd).isNone

theorem Process.fds_of_lowestFree {s : Process tree} {fd : Nat} (h : s.lowestFree = some fd) :
    s.fds fd = none := by
  have hfree := List.find?_some h
  exact Option.isNone_iff_eq_none.1 hfree

/-- A system that answers `pid` to `fork`, and knows each interface as the one with index 2. -/
def kernel (users : Users) (pid : Nat) (s : Process tree) : (c : Call) → Answer c × Process tree
  | .openFile path flags _ =>
    match s.lowestFree with
    | some fd => (some fd, s.withFd fd (some ⟨.named path flags s.uid s.root s.cwd, false⟩))
    | none => (none, s)
  | .close fd => if (s.fds fd).isSome then (some (), s.withFd fd none) else (none, s)
  | .dup2 oldfd newfd =>
    match s.fds oldfd with
    | some d => (some (), if oldfd = newfd then s else s.withFd newfd (some ⟨d.file, false⟩))
    | none => (none, s)
  | .setCloexec fd =>
    match s.fds fd with
    | some d => (some (), s.withFd fd (some ⟨d.file, true⟩))
    | none => (none, s)
  | .chdir path =>
    match tree.enter s.root s.cwd path with
    | some dir => (some (), { s with cwd := dir })
    | none => (none, s)
  | .chroot path =>
    match tree.enter s.root s.cwd path with
    | some dir => if s.uid = 0 then (some (), { s with root := dir }) else (none, s)
    | none => (none, s)
  | .setgroups list => if s.uid = 0 then (some (), { s with groups := list }) else (none, s)
  | .setgid gid => if s.uid = 0 then (some (), { s with gid }) else (none, s)
  | .setuid uid => if s.uid = 0 then (some (), { s with uid }) else (none, s)
  | .setsid => (some (), { s with leader := true })
  | .fork => (some pid, { s with leader := s.leader && pid ≠ 0, forked := some pid })
  | .pipe =>
    match s.lowestFree with
    | some fd₀ =>
      match (s.withFd fd₀ (some ⟨.pipeRead, false⟩)).lowestFree with
      | some fd₁ =>
        (some (fd₀, fd₁),
          (s.withFd fd₀ (some ⟨.pipeRead, false⟩)).withFd fd₁ (some ⟨.pipeWrite, false⟩))
      | none => (none, s)
    | none => (none, s)
  | .socket _ =>
    match s.lowestFree with
    | some fd =>
      if s.uid = 0 then (some fd, s.withFd fd (some ⟨.socket, false⟩)) else (none, s)
    | none => (none, s)
  | .bind .. => (some (), s)
  | .ifIndex .. => (some 2, s)
  | .ifHwaddr .. => (some (arphrdEther, Vector.replicate 14 0), s)
  | .getpwuid uid => (users.byUid uid, s)
  | .getpwnam name => (users.byName name, s)
  | .getgrnam name => (users.groupByName name, s)
  | .write .. => (some (), s)
  | .signal _ => (some (), s)
  | .perror _ => (some (), s)
  | .printHelp _ => (some (), s)
  | .printVersion => (some (), s)

theorem kernel_world (users : Users) (pid : Nat) (s : Process tree) (c : Call) :
    World users s c (kernel users pid s c).1 (kernel users pid s c).2 := by
  cases c with
  | openFile path flags mode =>
    simp only [kernel]
    split
    next fd hfd => exact ⟨Process.fds_of_lowestFree hfd, rfl⟩
    next => rfl
  | close fd =>
    simp only [kernel]
    split_ifs with hopen
    · exact ⟨hopen, rfl⟩
    · rfl
  | dup2 oldfd newfd =>
    simp only [kernel]
    split
    next d hd => exact ⟨d, hd, rfl⟩
    next => rfl
  | setCloexec fd =>
    simp only [kernel]
    split
    next d hd => exact ⟨d, hd, rfl⟩
    next => rfl
  | chdir path =>
    simp only [kernel]
    split
    next dir hdir => exact ⟨dir, hdir, rfl⟩
    next => rfl
  | chroot path =>
    simp only [kernel]
    split
    next dir hdir =>
      split_ifs with hzero
      · exact ⟨hzero, dir, hdir, rfl⟩
      · rfl
    next => rfl
  | setgroups list =>
    simp only [kernel]
    split_ifs with hzero
    · exact ⟨hzero, rfl⟩
    · rfl
  | setgid gid =>
    simp only [kernel]
    split_ifs with hzero
    · rfl
    · rfl
  | setuid uid =>
    simp only [kernel]
    split_ifs with hzero
    · exact ⟨Or.inl hzero, rfl⟩
    · rfl
  | pipe =>
    simp only [kernel]
    split
    next fd₀ h₀ =>
      split
      next fd₁ h₁ =>
        obtain ⟨hne, hfree⟩ := Process.free_of_withFd (Process.fds_of_lowestFree h₁)
        exact ⟨hne.symm, Process.fds_of_lowestFree h₀, hfree, rfl⟩
      next => rfl
    next => rfl
  | socket protocol =>
    simp only [kernel]
    split
    next fd hfd =>
      split_ifs with hzero
      · exact ⟨Process.fds_of_lowestFree hfd, rfl⟩
      · rfl
    next => rfl
  | getpwuid uid => exact ⟨rfl, rfl⟩
  | getpwnam name => exact ⟨rfl, rfl⟩
  | getgrnam name => exact ⟨rfl, rfl⟩
  | _ => rfl

end Executable

end IpSentinel.Startup
