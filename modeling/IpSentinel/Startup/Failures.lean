import IpSentinel.Startup.Confinement

/-!
# Failing calls of the startup

The wrappers of `wrappers.h` end the process when a call fails. Without them the program looks up a
numeric user, writes messages, and sets the handler of `SIGHUP`. `startup_fails` says that every
other failure ends the start with status 1, so no loop is entered with a part of the setup missing.
-/

set_option autoImplicit false

namespace IpSentinel.Startup

open Foundation

/-- A call that is always made through a wrapper. -/
def Call.Vital : Call → Prop
  | .getpwuid _ => False
  | .write .. => False
  | .signal .hangup => False
  | .perror _ => False
  | .printHelp _ => False
  | .printVersion => False
  | _ => True

/-- The failure of such a call. -/
def Fails (c : Call) (answer : Answer c) : Prop := c.Vital ∧ answer = none

/-- The program exits with status 1 after a failure. -/
abbrev FailFast {α : Type} (p : Prog α) : Prop := p.Strict Fails 1

/-! ## Rules -/

theorem checked_failFast {c : Call} {msg : String} : FailFast (checked c msg) := by
  intro answer
  cases answer with
  | none => exact ⟨fun _ _ => rfl, fun _ => ⟨fun _ => rfl, trivial⟩⟩
  | some r => exact ⟨fun h => absurd h.2 (Option.some_ne_none r), trivial⟩

/-- The rule for a call whose failure is ignored. -/
theorem ask_failFast {c : Call} (h : ¬ c.Vital) : FailFast (Program.ask c : Prog (Answer c)) :=
  fun _ => ⟨fun hfails => absurd hfails.1 h, trivial⟩

theorem vwrite_failFast {fd : Option Nat} {text : List Char} : FailFast (vwrite fd text) :=
  (ask_failFast id).bind fun _ => trivial

theorem writeMsg_failFast {text : String} : FailFast (writeMsg text) := vwrite_failFast

theorem message_failFast {α : Type} {text : String} :
    FailFast (writeMsg text >>= fun _ => (.exit 1 : Prog α)) :=
  writeMsg_failFast.bind fun _ => trivial

/-! ## The options -/

section Options

variable (lib : AddressLib)

theorem parseMac_failFast (optarg : Name) (allowSame : Bool) :
    FailFast (parseMac lib optarg allowSame) := by
  rw [parseMac]
  split_ifs
  · trivial
  · trivial
  · trivial
  · cases lib.xetherAton .zero optarg with
    | none => exact message_failFast
    | some ether => trivial

theorem parseDirection_failFast (optarg : Name) : FailFast (parseDirection optarg) := by
  rw [parseDirection]
  split_ifs
  · trivial
  · trivial
  · trivial
  · exact message_failFast

theorem writeHint_failFast {start : String} {cmd : Name} : FailFast (writeHint start cmd) :=
  writeMsg_failFast.bind fun _ => vwrite_failFast.bind fun _ => message_failFast

theorem parseOption_failFast (cmd : Name) (options : Arguments) (o : Opt) :
    FailFast (parseOption lib cmd options o) := by
  cases o with
  | help => exact (ask_failFast id).bind fun _ => trivial
  | version => exact (ask_failFast id).bind fun _ => trivial
  | mac optarg => exact (parseMac_failFast lib optarg false).bind fun _ => trivial
  | llmac optarg => exact (parseMac_failFast lib optarg true).bind fun _ => trivial
  | direction optarg => exact (parseDirection_failFast optarg).bind fun _ => trivial
  | unknown => exact writeHint_failFast.bind fun _ => trivial
  | _ => trivial

theorem foldlM_failFast (cmd : Name) (opts : List Opt) (options : Arguments) :
    FailFast (opts.foldlM (parseOption lib cmd) options) := by
  induction opts generalizing options with
  | nil => trivial
  | cons o opts ih =>
    rw [List.foldlM_cons]
    exact (parseOption_failFast lib cmd options o).bind ih

theorem parseOptions_failFast (d : Defaults) (cmd : Name) (opts : List Opt) (rest : List Name) :
    FailFast (parseOptions lib d cmd opts rest) := by
  refine (parseMac_failFast lib _ false).bind fun mac => ?_
  refine (foldlM_failFast lib cmd opts _).bind fun options => ?_
  obtain _ | ⟨iface, _ | ⟨other, more⟩⟩ := rest
  · exact writeMsg_failFast.bind fun _ => writeHint_failFast.bind fun _ => trivial
  · trivial
  · exact writeMsg_failFast.bind fun _ => writeHint_failFast.bind fun _ => trivial

end Options

/-! ## The setup -/

section Setup

variable (plat : Platform) (arguments : Arguments)

theorem lookupUser_failFast (user : Name) : FailFast (lookupUser plat user) := by
  rw [lookupUser]
  split_ifs
  · exact ask_failFast id
  · exact checked_failFast.bind fun _ => trivial

theorem lookupGroup_failFast (gid : Nat) (group : Option Name) :
    FailFast (lookupGroup plat gid group) := by
  cases group with
  | none => trivial
  | some group =>
    rw [lookupGroup]
    split_ifs
    · trivial
    · exact checked_failFast

theorem adjustUserGroup_failFast : FailFast (adjustUserGroup plat arguments) := by
  refine (lookupUser_failFast plat _).bind fun pw => ?_
  refine (lookupGroup_failFast plat _ _).bind fun gid => ?_
  split_ifs
  · exact message_failFast
  · trivial

theorem enterJail_failFast (dir : Option Name) : FailFast (enterJail dir) := by
  cases dir with
  | none => trivial
  | some path => exact checked_failFast.bind fun _ => checked_failFast

theorem openFiles_failFast : FailFast (openFiles arguments) := by
  refine checked_failFast.bind fun errFd => checked_failFast.bind fun outFd => ?_
  split_ifs
  · exact checked_failFast.bind fun _ => trivial
  · trivial

theorem dropPrivileges_failFast : FailFast (dropPrivileges plat arguments) := by
  refine (adjustUserGroup_failFast plat arguments).bind fun r => ?_
  refine (enterJail_failFast _).bind fun _ => checked_failFast.bind fun _ => ?_
  exact checked_failFast.bind fun _ => checked_failFast.bind fun _ => trivial

theorem background_failFast (pidFd : Option Nat) : FailFast (background arguments pidFd) := by
  refine checked_failFast.bind fun _ => checked_failFast.bind fun aux => ?_
  refine checked_failFast.bind fun _ => ?_
  split_ifs
  · refine checked_failFast.bind fun pid => ?_
    split_ifs
    · exact checked_failFast
    · exact vwrite_failFast.bind fun _ => checked_failFast.bind fun _ => trivial
  · trivial

theorem redirect_failFast {errFd outFd : Nat} {pidFd : Option Nat} :
    FailFast (redirect errFd outFd pidFd) := by
  refine checked_failFast.bind fun _ => checked_failFast.bind fun _ => ?_
  have hpid : FailFast (closePid pidFd) := by
    cases pidFd with
    | none => trivial
    | some fd => exact checked_failFast
  refine hpid.bind fun _ => checked_failFast.bind fun _ => checked_failFast.bind fun _ => ?_
  exact checked_failFast.bind fun _ => checked_failFast

theorem daemonize_failFast : FailFast (daemonize plat arguments) := by
  refine (openFiles_failFast arguments).bind fun r => ?_
  refine (dropPrivileges_failFast plat arguments).bind fun arguments => ?_
  refine (background_failFast arguments _).bind fun _ => ?_
  exact redirect_failFast.bind fun _ => trivial

theorem initIfaceInformation_failFast (fd : Nat) (iface : Name) :
    FailFast (initIfaceInformation fd iface) := by
  refine checked_failFast.bind fun ifindex => ?_
  split_ifs
  · exact writeMsg_failFast.bind fun _ => vwrite_failFast.bind fun _ => message_failFast
  · refine checked_failFast.bind ?_
    rintro ⟨saFamily, saData⟩
    dsimp only
    split_ifs
    · trivial
    · exact message_failFast

theorem generateSocket_failFast (iface : Name) : FailFast (generateSocket iface) := by
  refine checked_failFast.bind fun sock => checked_failFast.bind fun _ => ?_
  refine (initIfaceInformation_failFast sock iface).bind fun r => ?_
  exact checked_failFast.bind fun _ => trivial

theorem workerInit_failFast (sock : Nat) (ifIdx : Int) :
    FailFast (workerInit arguments sock ifIdx) := by
  refine checked_failFast.bind fun ends => checked_failFast.bind fun _ => ?_
  refine checked_failFast.bind fun _ => checked_failFast.bind fun pid => ?_
  split_ifs
  · exact checked_failFast.bind fun _ => checked_failFast.bind fun _ => trivial
  · exact checked_failFast.bind fun _ => trivial

theorem startProcesses_failFast (lib : AddressLib) :
    FailFast (startProcesses lib plat arguments) := by
  refine (generateSocket_failFast _).bind fun r => ?_
  refine (daemonize_failFast plat arguments).bind fun arguments => ?_
  refine (workerInit_failFast _ _ _).bind fun processes => ?_
  cases processes with
  | inl w => trivial
  | inr w => exact (ask_failFast id).bind fun _ => trivial

end Setup

/-- A start in which a call fails that is made through a wrapper exits with status 1, whatever is
answered later. -/
theorem startup_fails {tree : FileTree} (users : Users) (lib : AddressLib) (plat : Platform)
    (d : Defaults) (cmd : Name) (opts : List Opt) (rest : List Name) (s₀ t : Process tree)
    (tr : List (Σ c, Answer c)) (q : Prog Loop)
    (hrun : Program.Reaches (World users) (main lib plat d cmd opts rest) s₀ tr q t)
    (hfail : ∃ e ∈ tr, Fails e.1 e.2) : q.Aborts 1 := by
  have hmain : FailFast (main lib plat d cmd opts rest) :=
    (parseOptions_failFast lib d cmd opts rest).bind fun arguments =>
      startProcesses_failFast plat arguments lib
  exact hmain.aborts hrun hfail

/-- Another user than root starts the program, and gets no socket. -/
theorem startup_fails_sample : ∃ tr t q,
    Program.Reaches (World sampleUsers) (sampleMain sampleOptions) (sampleProcess 1000) tr q t ∧
      q.Aborts 1 := by
  have hrun := Program.reaches_runWith (kernel_world sampleUsers 1234) (sampleMain sampleOptions)
    (sampleProcess 1000)
  exact ⟨_, _, _, hrun, startup_fails sampleUsers referenceAddressLib lp64 sampleDefaults
    "ip-sentinel".toList sampleOptions ["eth0".toList] (sampleProcess 1000) _ _ _ hrun
    ⟨⟨.socket (htons ethPArp), none⟩, .head _, trivial, rfl⟩⟩

end IpSentinel.Startup
