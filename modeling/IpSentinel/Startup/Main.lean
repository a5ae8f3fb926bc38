import IpSentinel.Foundation.Strtol
import IpSentinel.Startup.Options
import IpSentinel.Worker.Jobs

/-!
# The startup

`main` of `ip-sentinel.c` up to the two loops, with `Worker_init` of `worker.c`, as a program over
the system calls. It returns in the process that enters `Worker_run`, and in the one that enters
`run`; the parent that `daemonize` leaves behind exits. The interface name is passed on as it is,
where the source copies its first bytes.
-/

set_option autoImplicit false

namespace IpSentinel.Startup

open Foundation

/-- The conversion of -1 to `gid_t`. -/
def gidUnknown : Nat := 2 ^ 32 - 1

/-- The text is read by `strtol` to its end. -/
def IsNumber (plat : Platform) (text : Name) : Prop :=
  text ≠ [] ∧ (strtol plat 0 text).2 = text.length

instance decidableIsNumber (plat : Platform) (text : Name) : Decidable (IsNumber plat text) :=
  inferInstanceAs (Decidable (_ ∧ _))

/-- The conversion of the number in a text to `uid_t` or `gid_t`. -/
def numberOf (plat : Platform) (text : Name) : Nat := toUInt (strtol plat 0 text).1

/-- The entry of the user in `adjustUserGroup`; only a number may have none. -/
def lookupUser (plat : Platform) (user : Name) : Prog (Option Passwd) :=
  if IsNumber plat user then Program.ask (Call.getpwuid (numberOf plat user))
  else do
    let pwUser ← egetpwnam user
    pure (some pwUser)

/-- The gid in `adjustUserGroup`, unless there is no option. -/
def lookupGroup (plat : Platform) (gid : Nat) (group : Option Name) : Prog Nat :=
  match group with
  | none => pure gid
  | some group => if IsNumber plat group then pure (numberOf plat group) else egetgrnam group

/-- `adjustUserGroup`: the arguments, the uid and the gid. -/
def adjustUserGroup (plat : Platform) (arguments : Arguments) : Prog (Arguments × Nat × Nat) := do
  let pwUser ← lookupUser plat arguments.user
  let uid := pwUser.elim (numberOf plat arguments.user) Passwd.pwUid
  let gid := pwUser.elim gidUnknown Passwd.pwGid
  let arguments := { arguments with chroot := arguments.chroot.or (pwUser.map Passwd.pwDir) }
  let gid ← lookupGroup plat gid arguments.group
  if gid = gidUnknown then do
    writeMsg "Failed to determine gid; perhaps you should use the '-g' option. Aborting...\n"
    .exit 1
  else pure (arguments, uid, gid)

/-! ## The parts of `daemonize` -/

/-- The descriptors of the error file, the log file and the pid file. -/
def openFiles (arguments : Arguments) : Prog (Nat × Nat × Option Nat) := do
  let errFd ← eopen arguments.errfile .append 0o600
  let outFd ← eopen arguments.logfile .append 0o600
  if arguments.doFork then do
    let pidFd ← eopen arguments.pidfile .truncate 0o755
    pure (errFd, outFd, some pidFd)
  else pure (errFd, outFd, none)

/-- The directories of the jail. -/
def enterJail (dir : Option Name) : Prog Unit :=
  match dir with
  | none => pure ()
  | some dir => do
    echdir dir
    echroot dir

/-- The ids, from `adjustUserGroup` to `Esetuid`. -/
def dropPrivileges (plat : Platform) (arguments : Arguments) : Prog Arguments := do
  let (arguments, uid, gid) ← adjustUserGroup plat arguments
  enterJail arguments.chroot
  esetgroups [gid]
  esetgid gid
  esetuid uid
  pure arguments

/-- From the test of the configuration file to `Esetsid`. -/
def background (arguments : Arguments) (pidFd : Option Nat) : Prog Unit := do
  eclose 0
  let aux ← eopen arguments.ipfile .readOnly 0
  eclose aux
  if arguments.doFork then do
    let daemonPid ← efork
    if daemonPid = 0 then esetsid
    else do
      vwrite pidFd (decimal daemonPid)
      ewrite pidFd "\n".toList
      .exit 0
  else pure ()

/-- `Eclose` for the pid file, if it is open. -/
def closePid (pidFd : Option Nat) : Prog Unit :=
  match pidFd with
  | none => pure ()
  | some fd => eclose fd

/-- The descriptors of the daemon. -/
def redirect (errFd outFd : Nat) (pidFd : Option Nat) : Prog Unit := do
  edup2 outFd 1
  edup2 errFd 2
  closePid pidFd
  eclose outFd
  eclose errFd
  setcloexec 1
  setcloexec 2

def daemonize (plat : Platform) (arguments : Arguments) : Prog Arguments := do
  let (errFd, outFd, pidFd) ← openFiles arguments
  let arguments ← dropPrivileges plat arguments
  background arguments pidFd
  redirect errFd outFd pidFd
  pure arguments

/-! ## The socket -/

/-- `initIfaceInformation`: the index and the address of the interface. -/
def initIfaceInformation (fd : Nat) (ifaceName : Name) : Prog (Int × EtherAddr) := do
  let ifindex ← checked (.ifIndex fd ifaceName) "ioctl()"
  if ifindex < 0 then do
    writeMsg "No such interface '"
    vwrite (some 2) ifaceName
    writeMsg "'\n"
    .exit 1
  else do
    let (saFamily, saData) ← checked (.ifHwaddr fd ifaceName) "ioctl()"
    if saFamily = arphrdEther then pure (ifindex, ⟨saData.take 6⟩)
    else do
      writeMsg "unsupported hardware-address (MAC) family of used interface\n"
      .exit 1

/-- `generateSocket`: the socket, and what `initIfaceInformation` finds. -/
def generateSocket (iface : Name) : Prog (Nat × Int × EtherAddr) := do
  let sock ← esocket (htons ethPArp)
  setcloexec sock
  let (idx, localMac) ← initIfaceInformation sock iface
  ebind sock (htons ethPArp) idx
  pure (sock, idx, localMac)

/-! ## The processes -/

/-- The members of `struct Worker`. -/
structure WorkerProcess where
  fd : Nat
  sock : Nat
  actionCmd : Option Name
  worker : Worker

/-- The process that enters `Worker_run`, or the one that enters `run`. -/
inductive Loop where
  | worker (w : WorkerProcess)
  | main (w : WorkerProcess) (arguments : Arguments) (localMac : EtherAddr)

/-- `Worker_init`; the left result is in the process that goes on with `Worker_run`. -/
def workerInit (arguments : Arguments) (sock : Nat) (ifIdx : Int) :
    Prog (WorkerProcess ⊕ WorkerProcess) := do
  let worker : Worker := { doPoison := arguments.doPoison, ifIdx, llmac := arguments.llmac }
  let (fd₀, fd₁) ← epipe
  setcloexec fd₀
  setcloexec fd₁
  let pid ← efork
  if pid = 0 then do
    eclose fd₁
    esignal .ignoreChild
    pure (.inl { fd := fd₀, sock, actionCmd := arguments.actionCmd, worker })
  else do
    eclose fd₀
    pure (.inr { fd := fd₁, sock, actionCmd := arguments.actionCmd, worker })

/-- `main` behind the parsing of the options. -/
def startProcesses (lib : AddressLib) (plat : Platform) (arguments : Arguments) : Prog Loop := do
  let (sock, ifIdx, localMac) ← generateSocket arguments.iface
  let arguments ← daemonize plat arguments
  let arguments := fixupOptions lib localMac arguments
  match ← workerInit arguments sock ifIdx with
  | .inl w => pure (.worker w)
  | .inr w => do
    let _ ← Program.ask (.signal .hangup)
    pure (.main w arguments localMac)

/-- `main`, with the answers of `getopt_long`. -/
def main (lib : AddressLib) (plat : Platform) (d : Defaults) (cmd : Name) (opts : List Opt)
    (rest : List Name) : Prog Loop := do
  let arguments ← parseOptions lib d cmd opts rest
  startProcesses lib plat arguments

end IpSentinel.Startup
