import IpSentinel.BlackList.Grammar
import IpSentinel.Foundation.FirstRule
import IpSentinel.MainLoop.Machine
import IpSentinel.Net.AddressLib
import IpSentinel.Startup.Kernel

/-!
# The command line

`arguments.c`, over what `getopt_long` answers: the options in their order, and the other arguments.
`parseOptions_meaning` says what a command line means. Of each option the last one counts, in
whatever order the different ones come; the first option that is not valid, or that asks for a text,
decides the exit status, before any file is opened.
-/

set_option autoImplicit false

namespace IpSentinel.Startup

open Foundation MainLoop

/-- `struct Arguments`. -/
structure Arguments where
  ipfile : Name
  pidfile : Name
  logfile : Name
  errfile : Name
  user : Name
  group : Option Name
  doFork : Bool
  chroot : Option Name
  iface : Name
  doPoison : Bool
  actionCmd : Option Name
  arpDir : ArpDir
  mac : TaggedMac
  llmac : TaggedMac
  deriving DecidableEq

/-- `DEFAULT_IPFILE`, `DEFAULT_PIDFILE`, `DEFAULT_LOGFILE`, `DEFAULT_ERRFILE` and `DEFAULT_USER`,
which the build sets. -/
structure Defaults where
  ipfile : Name
  pidfile : Name
  logfile : Name
  errfile : Name
  user : Name

/-- What `getopt_long` answers, with `optarg`. -/
inductive Opt where
  | help
  | action (optarg : Name)
  | errfile (optarg : Name)
  | group (optarg : Name)
  | ipfile (optarg : Name)
  | logfile (optarg : Name)
  | pidfile (optarg : Name)
  | chroot (optarg : Name)
  | user (optarg : Name)
  | nofork
  | version
  | mac (optarg : Name)
  | llmac (optarg : Name)
  | direction (optarg : Name)
  | poison
  /-- An unknown option, or a missing argument. -/
  | unknown
  deriving DecidableEq

/-! ## The functions of the source -/

/-- `Arguments_parseMac`; the address of the interface is not known yet. -/
def parseMac (lib : AddressLib) (optarg : Name) (allowSame : Bool) : Prog TaggedMac :=
  if optarg = "RANDOM".toList then pure .mcRandom
  else if optarg = "LOCAL".toList then pure .mcLocal
  else if allowSame ∧ optarg = "SAME".toList then pure .mcSame
  else
    match lib.xetherAton .zero optarg with
    | some ether => pure (.mcFixed ether)
    | none => do
      writeMsg "invalid mac specified\n"
      .exit 1

/-- `Arguments_parseDirection`. -/
def parseDirection (optarg : Name) : Prog ArpDir :=
  if optarg = "FROM".toList then pure .dirFROM
  else if optarg = "TO".toList then pure .dirTO
  else if optarg = "BOTH".toList then pure .dirBOTH
  else do
    writeMsg "invalid value for '--direction' specified\n"
    .exit 1

/-- The hint behind a wrong command line. -/
def writeHint (start : String) (cmd : Name) : Prog Unit := do
  writeMsg start
  vwrite (some 2) cmd
  writeMsg " --help\" for more information.\n"
  .exit 1

/-- One round of the loop of `parseOptions`. -/
def parseOption (lib : AddressLib) (cmd : Name) (options : Arguments) : Opt → Prog Arguments
  | .help => do
    let _ ← Program.ask (.printHelp cmd)
    .exit 0
  | .action optarg => pure { options with actionCmd := some optarg }
  | .errfile optarg => pure { options with errfile := optarg }
  | .group optarg => pure { options with group := some optarg }
  | .ipfile optarg => pure { options with ipfile := optarg }
  | .logfile optarg => pure { options with logfile := optarg }
  | .pidfile optarg => pure { options with pidfile := optarg }
  | .chroot optarg => pure { options with chroot := some optarg }
  | .user optarg => pure { options with user := optarg }
  | .nofork => pure { options with doFork := false }
  | .version => do
    let _ ← Program.ask .printVersion
    .exit 0
  | .mac optarg => do
    let mac ← parseMac lib optarg false
    pure { options with mac }
  | .llmac optarg => do
    let llmac ← parseMac lib optarg true
    pure { options with llmac }
  | .direction optarg => do
    let arpDir ← parseDirection optarg
    pure { options with arpDir }
  | .poison => pure { options with doPoison := true }
  | .unknown => do
    writeHint "Try \"" cmd
    pure options

/-- The options in front of the loop; the interface is not set yet. -/
def initial (d : Defaults) (mac : TaggedMac) : Arguments where
  ipfile := d.ipfile
  pidfile := d.pidfile
  logfile := d.logfile
  errfile := d.errfile
  user := d.user
  group := none
  doFork := true
  chroot := none
  iface := []
  doPoison := true
  actionCmd := none
  arpDir := .dirBOTH
  mac := mac
  llmac := .mcLocal

/-- `parseOptions`; `cmd` is `argv[0]`, and `rest` are the arguments from `optind` on. -/
def parseOptions (lib : AddressLib) (d : Defaults) (cmd : Name) (opts : List Opt)
    (rest : List Name) : Prog Arguments := do
  let mac ← parseMac lib "802.3x".toList false
  let options ← opts.foldlM (parseOption lib cmd) (initial d mac)
  match rest with
  | [iface] => pure { options with iface }
  | [] => do
    writeMsg "No interface specified; "
    writeHint "try \"" cmd
    pure options
  | _ => do
    writeMsg "Too much interfaces specified; "
    writeHint "try \"" cmd
    pure options

/-- `fixupMac`, with the address of the interface. -/
def fixupMac (lib : AddressLib) (localMac : EtherAddr) (mac : TaggedMac) : TaggedMac :=
  match mac with
  | .mcLocal => .mcFixed ((lib.xetherAton localMac "LOCAL".toList).getD .zero)
  | mac => mac

/-- `Arguments_fixupOptions`. -/
def fixupOptions (lib : AddressLib) (localMac : EtherAddr) (options : Arguments) : Arguments :=
  { options with
    mac := fixupMac lib localMac options.mac
    llmac := fixupMac lib localMac options.llmac }

/-! ## What the options say -/

/-- The value of `--mac` or `--llmac`. -/
def macOf (lib : AddressLib) (allowSame : Bool) (optarg : Name) : Option TaggedMac :=
  if optarg = "RANDOM".toList then some .mcRandom
  else if optarg = "LOCAL".toList then some .mcLocal
  else if allowSame ∧ optarg = "SAME".toList then some .mcSame
  else (lib.xetherAton .zero optarg).map .mcFixed

/-- The value of `--direction`. -/
def directionOf (optarg : Name) : Option ArpDir :=
  if optarg = "FROM".toList then some .dirFROM
  else if optarg = "TO".toList then some .dirTO
  else if optarg = "BOTH".toList then some .dirBOTH
  else none

/-- The option sets something, and its value can be read. -/
def Opt.Valid (lib : AddressLib) : Opt → Prop
  | .help => False
  | .version => False
  | .unknown => False
  | .mac optarg => (macOf lib false optarg).isSome
  | .llmac optarg => (macOf lib true optarg).isSome
  | .direction optarg => (directionOf optarg).isSome
  | _ => True

/-- The exit status of an option that ends the process. -/
def Opt.status : Opt → Nat
  | .help => 0
  | .version => 0
  | _ => 1

/-- What an option that is valid sets. -/
def Opt.apply (lib : AddressLib) (options : Arguments) : Opt → Arguments
  | .action optarg => { options with actionCmd := some optarg }
  | .errfile optarg => { options with errfile := optarg }
  | .group optarg => { options with group := some optarg }
  | .ipfile optarg => { options with ipfile := optarg }
  | .logfile optarg => { options with logfile := optarg }
  | .pidfile optarg => { options with pidfile := optarg }
  | .chroot optarg => { options with chroot := some optarg }
  | .user optarg => { options with user := optarg }
  | .nofork => { options with doFork := false }
  | .mac optarg => { options with mac := (macOf lib false optarg).getD options.mac }
  | .llmac optarg => { options with llmac := (macOf lib true optarg).getD options.llmac }
  | .direction optarg => { options with arpDir := (directionOf optarg).getD options.arpDir }
  | .poison => { options with doPoison := true }
  | .help => options
  | .version => options
  | .unknown => options

/-- What a command line with valid options and one interface means: each value is the one of the
last option that gives it. -/
def meaning (lib : AddressLib) (d : Defaults) (mac : TaggedMac) (opts : List Opt) (iface : Name) :
    Arguments where
  ipfile := lastOf (fun | .ipfile v => some v | _ => none) opts d.ipfile
  pidfile := lastOf (fun | .pidfile v => some v | _ => none) opts d.pidfile
  logfile := lastOf (fun | .logfile v => some v | _ => none) opts d.logfile
  errfile := lastOf (fun | .errfile v => some v | _ => none) opts d.errfile
  user := lastOf (fun | .user v => some v | _ => none) opts d.user
  group := lastOf (fun | .group v => some (some v) | _ => none) opts none
  doFork := lastOf (fun | .nofork => some false | _ => none) opts true
  chroot := lastOf (fun | .chroot v => some (some v) | _ => none) opts none
  iface := iface
  doPoison := lastOf (fun | .poison => some true | _ => none) opts true
  actionCmd := lastOf (fun | .action v => some (some v) | _ => none) opts none
  arpDir := lastOf (fun | .direction v => directionOf v | _ => none) opts .dirBOTH
  mac := lastOf (fun | .mac v => macOf lib false v | _ => none) opts mac
  llmac := lastOf (fun | .llmac v => macOf lib true v | _ => none) opts .mcLocal

/-- The loop over the options leaves their meaning. -/
theorem foldl_apply (lib : AddressLib) (d : Defaults) (mac : TaggedMac) (opts : List Opt)
    (iface : Name) :
    { opts.foldl (Opt.apply lib) (initial d mac) with iface } = meaning lib d mac opts iface := by
  rw [meaning, Arguments.mk.injEq]
  refine ⟨?_, ?_, ?_, ?_, ?_, ?_, ?_, ?_, rfl, ?_, ?_, ?_, ?_, ?_⟩
  -- field by field: an option that gives it sets it, and the others leave it as it is
  all_goals
    refine get_foldl (fun s o => ?_) opts (initial d mac)
    cases o <;> rfl

theorem macOf_ne_same {lib : AddressLib} {optarg : Name} {mac : TaggedMac}
    (h : macOf lib false optarg = some mac) : mac ≠ .mcSame := by
  rintro rfl
  rw [macOf] at h
  split_ifs at h with hrandom hlocal hsame
  · cases h
  · cases h
  · cases hsame.1
  · obtain ⟨ether, -, hether⟩ := Option.map_eq_some_iff.1 h
    cases hether

/-- Only `--llmac` takes `SAME`. -/
theorem meaning_mac_ne_same (lib : AddressLib) (d : Defaults) {mac : TaggedMac}
    (hmac : mac ≠ .mcSame) (opts : List Opt) (iface : Name) :
    (meaning lib d mac opts iface).mac ≠ .mcSame := by
  refine lastOf_of_forall (P := fun value => value ≠ TaggedMac.mcSame) opts hmac ?_
  intro o value hvalue
  cases o with
  | mac optarg => exact macOf_ne_same hvalue
  | _ => cases hvalue

/-- There is no option that switches the poisoning off. -/
theorem meaning_doPoison (lib : AddressLib) (d : Defaults) (mac : TaggedMac) (opts : List Opt)
    (iface : Name) : (meaning lib d mac opts iface).doPoison = true := by
  refine lastOf_of_forall (P := fun value => value = true) opts rfl fun o value hvalue => ?_
  cases o with
  | poison =>
    cases hvalue
    rfl
  | _ => cases hvalue

/-- The tag of the default MAC. -/
def defaultTag : BlackList.DefaultMac → TaggedMac
  | .mcRANDOM => .mcRandom
  | .mcFIXED ether => .mcFixed ether

theorem fixupMac_ne_local (lib : AddressLib) (localMac : EtherAddr) (mac : TaggedMac) :
    fixupMac lib localMac mac ≠ .mcLocal := by
  cases mac <;> simp [fixupMac]

/-- `fixupMac` leaves one of the values that the blacklist knows. -/
theorem exists_defaultTag {mac : TaggedMac} (h : mac ≠ .mcSame) (lib : AddressLib)
    (localMac : EtherAddr) : ∃ value, fixupMac lib localMac mac = defaultTag value := by
  cases mac with
  | mcRandom => exact ⟨.mcRANDOM, rfl⟩
  | mcFixed ether => exact ⟨.mcFIXED ether, rfl⟩
  | mcLocal => exact ⟨.mcFIXED _, rfl⟩
  | mcSame => exact absurd rfl h

/-! ## What the functions do -/

theorem parseMac_of_some {lib : AddressLib} {optarg : Name} {allowSame : Bool} {mac : TaggedMac}
    (h : macOf lib allowSame optarg = some mac) : parseMac lib optarg allowSame = .ret mac := by
  rw [macOf] at h
  rw [parseMac]
  split_ifs at h ⊢
  · cases h
    rfl
  · cases h
    rfl
  · cases h
    rfl
  · obtain ⟨ether, hether, rfl⟩ := Option.map_eq_some_iff.1 h
    rw [hether]
    rfl

theorem parseMac_aborts {lib : AddressLib} {optarg : Name} {allowSame : Bool}
    (h : macOf lib allowSame optarg = none) : (parseMac lib optarg allowSame).Aborts 1 := by
  rw [macOf] at h
  rw [parseMac]
  split_ifs at h ⊢
  rw [Option.map_eq_none_iff.1 h]
  exact fun _ => rfl

theorem parseDirection_of_some {optarg : Name} {arpDir : ArpDir}
    (h : directionOf optarg = some arpDir) : parseDirection optarg = .ret arpDir := by
  rw [directionOf] at h
  rw [parseDirection]
  split_ifs at h ⊢
  · cases h
    rfl
  · cases h
    rfl
  · cases h
    rfl

theorem parseDirection_aborts {optarg : Name} (h : directionOf optarg = none) :
    (parseDirection optarg).Aborts 1 := by
  rw [directionOf] at h
  rw [parseDirection]
  split_ifs at h ⊢
  exact fun _ => rfl

theorem writeHint_aborts (start : String) (cmd : Name) : (writeHint start cmd).Aborts 1 :=
  fun _ _ _ => rfl

/-- A valid option is applied. -/
theorem parseOption_of_valid {lib : AddressLib} {o : Opt} (h : o.Valid lib) (cmd : Name)
    (options : Arguments) : parseOption lib cmd options o = .ret (o.apply lib options) := by
  cases o with
  | mac optarg =>
    obtain ⟨mac, hmac⟩ := Option.isSome_iff_exists.1 h
    rw [parseOption, parseMac_of_some hmac, Opt.apply, hmac]
    rfl
  | llmac optarg =>
    obtain ⟨mac, hmac⟩ := Option.isSome_iff_exists.1 h
    rw [parseOption, parseMac_of_some hmac, Opt.apply, hmac]
    rfl
  | direction optarg =>
    obtain ⟨arpDir, hdir⟩ := Option.isSome_iff_exists.1 h
    rw [parseOption, parseDirection_of_some hdir, Opt.apply, hdir]
    rfl
  | help => exact absurd h id
  | version => exact absurd h id
  | unknown => exact absurd h id
  | _ => rfl

/-- Another one ends the process. -/
theorem parseOption_aborts {lib : AddressLib} {o : Opt} (h : ¬ o.Valid lib) (cmd : Name)
    (options : Arguments) : (parseOption lib cmd options o).Aborts o.status := by
  cases o with
  | mac optarg => exact (parseMac_aborts (Option.not_isSome_iff_eq_none.1 h)).bind _
  | llmac optarg => exact (parseMac_aborts (Option.not_isSome_iff_eq_none.1 h)).bind _
  | direction optarg => exact (parseDirection_aborts (Option.not_isSome_iff_eq_none.1 h)).bind _
  | help => exact fun _ => rfl
  | version => exact fun _ => rfl
  | unknown => exact (writeHint_aborts _ cmd).bind _
  | _ => exact absurd trivial h

/-- Valid options are applied one after the other. -/
theorem foldlM_of_valid {lib : AddressLib} {opts : List Opt} (h : ∀ o ∈ opts, o.Valid lib)
    (cmd : Name) (options : Arguments) :
    opts.foldlM (parseOption lib cmd) options = .ret (opts.foldl (Opt.apply lib) options) := by
  induction opts generalizing options with
  | nil => rfl
  | cons o opts ih =>
    obtain ⟨ho, hopts⟩ := List.forall_mem_cons.1 h
    rw [List.foldlM_cons, parseOption_of_valid ho]
    exact ih hopts _

/-- The first option that is not valid ends the process. -/
theorem foldlM_aborts {lib : AddressLib} {pre post : List Opt} {o : Opt}
    (hpre : ∀ o ∈ pre, o.Valid lib) (ho : ¬ o.Valid lib) (cmd : Name) (options : Arguments) :
    (((pre ++ o :: post).foldlM (parseOption lib cmd) options : Prog Arguments)).Aborts
      o.status := by
  induction pre generalizing options with
  | nil =>
    rw [List.nil_append, List.foldlM_cons]
    exact (parseOption_aborts ho cmd options).bind _
  | cons p pre ih =>
    obtain ⟨hp, hpre⟩ := List.forall_mem_cons.1 hpre
    rw [List.cons_append, List.foldlM_cons, parseOption_of_valid hp]
    exact ih hpre _

/-- The loop over the options ends with all of them applied, or ends the process. -/
theorem foldlM_cases (lib : AddressLib) (cmd : Name) (opts : List Opt) (options : Arguments) :
    (∀ o ∈ opts, o.Valid lib) ∨
      ∃ status, ((opts.foldlM (parseOption lib cmd) options : Prog Arguments)).Aborts status := by
  induction opts generalizing options with
  | nil => exact Or.inl (List.forall_mem_nil _)
  | cons o opts ih =>
    rw [List.foldlM_cons]
    by_cases ho : o.Valid lib
    · rw [parseOption_of_valid ho]
      exact (ih _).imp_left fun hopts => List.forall_mem_cons.2 ⟨ho, hopts⟩
    · exact Or.inr ⟨_, (parseOption_aborts ho cmd options).bind _⟩

/-- The address `802.3x` is read, or the process ends. -/
theorem parseMac_default (lib : AddressLib) :
    (∃ pause, parseMac lib "802.3x".toList false = .ret (.mcFixed pause)) ∨
      (parseMac lib "802.3x".toList false).Aborts 1 := by
  have hmac : macOf lib false "802.3x".toList =
      (lib.xetherAton .zero "802.3x".toList).map .mcFixed := by
    rw [macOf, if_neg (by decide), if_neg (by decide), if_neg (by decide)]
  cases hread : lib.xetherAton .zero "802.3x".toList with
  | none =>
    rw [hread] at hmac
    exact Or.inr (parseMac_aborts hmac)
  | some pause =>
    rw [hread] at hmac
    exact Or.inl ⟨pause, parseMac_of_some hmac⟩

section Line

variable {lib : AddressLib} {pause : EtherAddr} {opts : List Opt}

theorem parseOptions_of_valid (hmac : parseMac lib "802.3x".toList false = .ret (.mcFixed pause))
    (hvalid : ∀ o ∈ opts, o.Valid lib) (d : Defaults) (cmd iface : Name) :
    parseOptions lib d cmd opts [iface] = .ret (meaning lib d (.mcFixed pause) opts iface) := by
  rw [parseOptions, hmac, ← foldl_apply]
  change (opts.foldlM (parseOption lib cmd) (initial d (.mcFixed pause)) >>= _) = _
  rw [foldlM_of_valid hvalid]
  rfl

/-- Without an interface, or with more than one, the process ends. -/
theorem parseOptions_aborts_of_length
    (hmac : parseMac lib "802.3x".toList false = .ret (.mcFixed pause))
    (hvalid : ∀ o ∈ opts, o.Valid lib) (d : Defaults) (cmd : Name) {rest : List Name}
    (hlength : rest.length ≠ 1) : (parseOptions lib d cmd opts rest).Aborts 1 := by
  rw [parseOptions, hmac]
  change (opts.foldlM (parseOption lib cmd) (initial d (.mcFixed pause)) >>= _).Aborts 1
  rw [foldlM_of_valid hvalid]
  match rest with
  | [] => exact fun _ => (writeHint_aborts _ cmd).bind _
  | [iface] => exact absurd rfl hlength
  | _ :: _ :: _ => exact fun _ => (writeHint_aborts _ cmd).bind _

end Line

/-- What `parseOptions` returns, if it does, is what the options mean. -/
theorem parseOptions_cases (lib : AddressLib) (d : Defaults) (cmd : Name) (opts : List Opt)
    (rest : List Name) :
    (∃ pause iface, parseOptions lib d cmd opts rest =
      .ret (meaning lib d (.mcFixed pause) opts iface)) ∨
      ∃ status, (parseOptions lib d cmd opts rest).Aborts status := by
  rcases parseMac_default lib with ⟨pause, hmac⟩ | haborts
  · rcases foldlM_cases lib cmd opts (initial d (.mcFixed pause)) with hvalid | ⟨status, haborts⟩
    · by_cases hlength : rest.length = 1
      · obtain ⟨iface, rfl⟩ := List.length_eq_one_iff.1 hlength
        exact Or.inl ⟨pause, iface, parseOptions_of_valid hmac hvalid d cmd iface⟩
      · exact Or.inr ⟨1, parseOptions_aborts_of_length hmac hvalid d cmd hlength⟩
    · rw [parseOptions, hmac]
      exact Or.inr ⟨status, haborts.bind _⟩
  · exact Or.inr ⟨1, haborts.bind _⟩

/-- The default files and user. -/
def sampleDefaults : Defaults where
  ipfile := "ips.cfg".toList
  pidfile := "/var/run/ip-sentinel.run".toList
  logfile := "/var/log/ip-sentinel.out".toList
  errfile := "/var/log/ip-sentinel.err".toList
  user := "ip-sentinel".toList

/-- Options with two directions, of which the last one counts. -/
def sampleOptions : List Opt :=
  [.direction "FROM".toList, .mac "RANDOM".toList, .nofork, .direction "TO".toList]

/-- What `parseOptions` makes of every command line, when the library can read the default MAC. -/
theorem parseOptions_meaning (lib : AddressLib) (d : Defaults) (cmd : Name) (pause : EtherAddr)
    (hpause : lib.etherAton "01:80:C2:00:00:01".toList = some pause) (opts : List Opt)
    (rest : List Name) :
    ((∀ o ∈ opts, o.Valid lib) → ∀ iface, rest = [iface] →
      parseOptions lib d cmd opts rest = .ret (meaning lib d (.mcFixed pause) opts iface)) ∧
    ((∀ o ∈ opts, o.Valid lib) → rest.length ≠ 1 →
      (parseOptions lib d cmd opts rest).Aborts 1) ∧
    ∀ pre o post, opts = pre ++ o :: post → (∀ o' ∈ pre, o'.Valid lib) → ¬ o.Valid lib →
      (parseOptions lib d cmd opts rest).Aborts o.status := by
  have hmac : parseMac lib "802.3x".toList false = .ret (.mcFixed pause) := by
    apply parseMac_of_some
    rw [macOf, if_neg (by decide), if_neg (by decide), if_neg (by decide), AddressLib.xetherAton,
      if_neg (by decide), if_neg (by decide), if_pos rfl, hpause]
    rfl
  refine ⟨?_, ?_, ?_⟩
  · rintro hvalid iface rfl
    exact parseOptions_of_valid hmac hvalid d cmd iface
  · exact fun hvalid => parseOptions_aborts_of_length hmac hvalid d cmd
  · rintro pre o post rfl hpre ho
    rw [parseOptions, hmac]
    exact (foldlM_aborts hpre ho cmd _).bind _

/-- Of two directions the last one counts. -/
theorem parseOptions_meaning_directions :
    parseOptions referenceAddressLib sampleDefaults "ip-sentinel".toList sampleOptions
        ["eth0".toList] =
      .ret
        { ipfile := sampleDefaults.ipfile
          pidfile := sampleDefaults.pidfile
          logfile := sampleDefaults.logfile
          errfile := sampleDefaults.errfile
          user := sampleDefaults.user
          group := none
          doFork := false
          chroot := none
          iface := "eth0".toList
          doPoison := true
          actionCmd := none
          arpDir := .dirTO
          mac := .mcRandom
          llmac := .mcLocal } := by
  have hvalid : ∀ o ∈ sampleOptions, o.Valid referenceAddressLib := by
    rw [sampleOptions]
    simp only [List.forall_mem_cons]
    exact ⟨rfl, rfl, trivial, rfl, List.forall_mem_nil _⟩
  exact (parseOptions_meaning referenceAddressLib sampleDefaults "ip-sentinel".toList
    BlackList.pauseMac (by decide) sampleOptions ["eth0".toList]).1 hvalid _ rfl

end IpSentinel.Startup
