import IpSentinel.Startup.Main

/-!
# What the startup leaves behind

In every run of the startup each of the two processes enters its loop with the ids that the options
name, in the jail, and with a table of descriptors that is known exactly (`started_confined`): what
the program has opened is closed again or close-on-exec. On the way every file is opened either from
outside of the jail, for the log and the pid, or with the ids and the directories of the daemon
(`startup_guarded`).
-/

set_option autoImplicit false

namespace IpSentinel.Startup

open Foundation

/-! ## Checked calls -/

section Rules

variable {tree : FileTree} {users : Users} {G : Call → Process tree → Prop}
variable {E : Nat → Process tree → Prop}

/-- Messages and the exit status 1 are allowed everywhere. -/
structure Lenient (G : Call → Process tree → Prop) (E : Nat → Process tree → Prop) : Prop where
  perror : ∀ msg s, G (.perror msg) s
  write : ∀ fd text s, G (.write fd text) s
  fail : ∀ s, E 1 s

/-- A checked call goes on when it succeeds. -/
theorem Lenient.checked (hl : Lenient G E) {c : Call} {msg : String} {s : Process tree}
    {Q : Result c → Process tree → Prop} (hG : G c s)
    (h : ∀ r t, World users s c (some r) t → Q r t) :
    (checked c msg).Meets (World users) G E Q s := by
  refine ⟨hG, fun a t hstep => ?_⟩
  cases a with
  | none => exact ⟨hl.perror msg t, fun _ _ _ => hl.fail _⟩
  | some r => exact h r t hstep

/-- The rule for a checked call in front of a program. -/
theorem Lenient.checked_bind (hl : Lenient G E) {c : Call} {msg : String} {s : Process tree}
    {α : Type} {f : Result c → Prog α} {Q : α → Process tree → Prop} (hG : G c s)
    (h : ∀ r t, World users s c (some r) t → (f r).Meets (World users) G E Q t) :
    (Startup.checked c msg >>= f).Meets (World users) G E Q s :=
  Program.meets_bind.2 (hl.checked hG h)

/-- A message that ends the process. -/
theorem Lenient.message (hl : Lenient G E) {text : String} {s : Process tree} {α : Type}
    {Q : α → Process tree → Prop} :
    (writeMsg text >>= fun _ => (.exit 1 : Prog α)).Meets (World users) G E Q s :=
  ⟨hl.write _ _ s, fun _ _ _ => hl.fail _⟩

end Rules

/-! ## Ids and directories -/

/-- What the options say about the ids and the jail. -/
structure Credentials where
  uid : Nat
  gid : Nat
  dir : Option Name

/-- The entry of a user: a number need not have one. -/
def entryOf (users : Users) (plat : Platform) (user : Name) : Option (Option Passwd) :=
  if IsNumber plat user then some (users.byUid (numberOf plat user))
  else (users.byName user).map some

/-- The group of the options, or that of the user. -/
def groupOf (users : Users) (plat : Platform) (gid : Nat) (group : Option Name) : Option Nat :=
  match group with
  | none => some gid
  | some group =>
    if IsNumber plat group then some (numberOf plat group) else users.groupByName group

/-- The ids and the directory that the options name. -/
def credentials (users : Users) (plat : Platform) (arguments : Arguments) : Option Credentials := do
  let pw ← entryOf users plat arguments.user
  let gid ← groupOf users plat (pw.elim gidUnknown Passwd.pwGid) arguments.group
  if gid = gidUnknown then none
  else
    some
      { uid := pw.elim (numberOf plat arguments.user) Passwd.pwUid
        gid
        dir := arguments.chroot.or (pw.map Passwd.pwDir) }

variable {tree : FileTree}

/-- The process has been moved as `chdir` and then `chroot` with the same path move it from `s₀`. An
absolute directory is the new root and the working directory; a relative one is entered twice, and
the new root lies below the working directory. -/
def Jailed (s₀ : Process tree) (dir : Option Name) (s : Process tree) : Prop :=
  match dir with
  | none => s.root = s₀.root ∧ s.cwd = s₀.cwd
  | some path =>
    tree.enter s₀.root s₀.cwd path = some s.cwd ∧ tree.enter s₀.root s.cwd path = some s.root ∧
      (path.head? = some '/' → s.root = s.cwd)

/-- An absolute directory that is entered twice. -/
theorem enter_twice {root cwd dir dir' : tree.Dir} {path : Name}
    (habsolute : path.head? = some '/') (hdir : tree.enter root cwd path = some dir)
    (hdir' : tree.enter root dir path = some dir') : dir' = dir := by
  rw [tree.enter_absolute root dir cwd path habsolute, hdir] at hdir'
  exact (Option.some.inj hdir').symm

/-- The process has the ids of the credentials only, and has been moved to their directory. -/
structure Dropped (c : Credentials) (s₀ s : Process tree) : Prop where
  uid : s.uid = c.uid
  gid : s.gid = c.gid
  groups : s.groups = [c.gid]
  jailed : Jailed s₀ c.dir s

/-- The descriptors do not matter. -/
theorem Dropped.withFds {c : Credentials} {s₀ s : Process tree} (h : Dropped c s₀ s)
    (fds : Nat → Option (Descriptor tree)) : Dropped c s₀ (s.withFds fds) :=
  ⟨h.uid, h.gid, h.groups, h.jailed⟩

/-- The privileges have been dropped as the options say. -/
def IsDropped (users : Users) (plat : Platform) (arguments : Arguments) (s₀ s : Process tree) :
    Prop :=
  ∃ c ∈ credentials users plat arguments, Dropped c s₀ s

/-- The condition on a call. -/
def Guarded (users : Users) (plat : Platform) (arguments : Arguments) (s₀ : Process tree) :
    Call → Process tree → Prop
  | .openFile path flags _, s =>
    ((path = arguments.errfile ∨ path = arguments.logfile ∨ path = arguments.pidfile) ∧
        flags ≠ .readOnly ∧ s.uid = s₀.uid ∧ s.root = s₀.root ∧ s.cwd = s₀.cwd) ∨
      path = arguments.ipfile ∧ flags = .readOnly ∧ IsDropped users plat arguments s₀ s
  | .fork, s => IsDropped users plat arguments s₀ s
  | _, _ => True

/-- The condition on an exit: only the parent of a daemon that has dropped its privileges
succeeds. -/
def Ended (users : Users) (plat : Platform) (arguments : Arguments) (s₀ : Process tree)
    (status : Nat) (s : Process tree) : Prop :=
  status = 1 ∨ status = 0 ∧ arguments.doFork = true ∧ IsDropped users plat arguments s₀ s ∧
    ∃ pid ≠ 0, s.forked = some pid

section Phases

variable {users : Users} {plat : Platform} {arguments : Arguments} {s₀ s : Process tree}

theorem lenient : Lenient (Guarded users plat arguments s₀) (Ended users plat arguments s₀) where
  perror _ _ := trivial
  write _ _ _ := trivial
  fail _ := Or.inl rfl

theorem lookupUser_meets (user : Name) :
    (lookupUser plat user).Meets (World users) (Guarded users plat arguments s₀)
      (Ended users plat arguments s₀)
      (fun pw t => t = s ∧ entryOf users plat user = some pw) s := by
  rw [lookupUser, entryOf]
  split_ifs with hnumber
  · refine ⟨trivial, ?_⟩
    rintro _ t ⟨rfl, rfl⟩
    exact ⟨rfl, rfl⟩
  · refine lenient.checked_bind trivial ?_
    rintro pw t ⟨hpw, rfl⟩
    refine ⟨rfl, ?_⟩
    rw [← hpw]
    rfl

theorem lookupGroup_meets (gid : Nat) (group : Option Name) :
    (lookupGroup plat gid group).Meets (World users) (Guarded users plat arguments s₀)
      (Ended users plat arguments s₀)
      (fun gid' t => t = s ∧ groupOf users plat gid group = some gid') s := by
  cases group with
  | none => exact ⟨rfl, rfl⟩
  | some group =>
    rw [lookupGroup, groupOf]
    split_ifs with hnumber
    · exact ⟨rfl, rfl⟩
    · refine lenient.checked trivial ?_
      rintro gid' t ⟨hgid, rfl⟩
      exact ⟨rfl, hgid.symm⟩

/-- `adjustUserGroup` finds what the options say, or ends the process. -/
theorem adjustUserGroup_meets :
    (adjustUserGroup plat arguments).Meets (World users) (Guarded users plat arguments s₀)
      (Ended users plat arguments s₀)
      (fun r t => t = s ∧ ∃ c, credentials users plat arguments = some c ∧
        r = ({ arguments with chroot := c.dir }, c.uid, c.gid)) s := by
  refine (lookupUser_meets arguments.user).bind ?_
  rintro pw t ⟨rfl, hpw⟩
  refine (lookupGroup_meets _ arguments.group).bind ?_
  rintro gid t ⟨rfl, hgid⟩
  split_ifs with hunknown
  · exact lenient.message
  · have hc : credentials users plat arguments = some
        ⟨pw.elim (numberOf plat arguments.user) Passwd.pwUid, gid,
          arguments.chroot.or (pw.map Passwd.pwDir)⟩ := by
      simp only [credentials, hpw, hgid, hunknown, Option.bind_eq_bind, Option.bind_some, if_false]
    exact ⟨rfl, _, hc, rfl⟩

theorem enterJail_meets {dir : Option Name} (hroot : s.root = s₀.root) (hcwd : s.cwd = s₀.cwd) :
    (enterJail dir).Meets (World users) (Guarded users plat arguments s₀)
      (Ended users plat arguments s₀)
      (fun _ t => Jailed s₀ dir t ∧ t.fds = s.fds ∧ t.leader = s.leader) s := by
  cases dir with
  | none => exact ⟨⟨hroot, hcwd⟩, rfl, rfl⟩
  | some path =>
    refine lenient.checked_bind trivial ?_
    rintro _ t ⟨cwd, henter, rfl⟩
    refine lenient.checked trivial ?_
    rintro _ u ⟨-, root, henter', rfl⟩
    rw [hroot, hcwd] at henter
    dsimp only at henter'
    rw [hroot] at henter'
    exact ⟨⟨henter, henter', fun habsolute => enter_twice habsolute henter henter'⟩, rfl, rfl⟩

/-- Behind `dropPrivileges` the process has the credentials, and its descriptors as before. -/
theorem dropPrivileges_meets (hroot : s.root = s₀.root) (hcwd : s.cwd = s₀.cwd) :
    (dropPrivileges plat arguments).Meets (World users) (Guarded users plat arguments s₀)
      (Ended users plat arguments s₀)
      (fun r t => ∃ c, credentials users plat arguments = some c ∧
        r = { arguments with chroot := c.dir } ∧ Dropped c s₀ t ∧ t.fds = s.fds) s := by
  refine adjustUserGroup_meets.bind ?_
  rintro _ t ⟨rfl, c, hc, rfl⟩
  refine (enterJail_meets hroot hcwd).bind ?_
  rintro _ u ⟨hjailed, hfds, -⟩
  -- `Esetgroups`, `Esetgid` and `Esetuid`, in this order: the last one gives up uid 0
  refine lenient.checked_bind trivial ?_
  rintro _ v ⟨-, rfl⟩
  refine lenient.checked_bind trivial ?_
  rintro _ v rfl
  refine lenient.checked_bind trivial ?_
  rintro _ v ⟨-, rfl⟩
  exact ⟨c, hc, rfl, ⟨rfl, rfl, rfl, hjailed⟩, hfds⟩

/-- Behind `background` the standard input is closed, and a daemon leads its session. -/
theorem background_meets {c : Credentials} (hc : credentials users plat arguments = some c)
    (h : Dropped c s₀ s) (pidFd : Option Nat) :
    (background { arguments with chroot := c.dir } pidFd).Meets (World users)
      (Guarded users plat arguments s₀) (Ended users plat arguments s₀)
      (fun _ t => ∃ leader forked, t = { s.withFd 0 none with leader, forked } ∧
        (arguments.doFork = true → leader = true)) s := by
  have hdropped : IsDropped users plat arguments s₀ (s.withFd 0 none) := ⟨c, hc, h.withFds _⟩
  -- the configuration file is opened and closed again, as a test only
  refine lenient.checked_bind trivial ?_
  rintro _ t ⟨-, rfl⟩
  refine lenient.checked_bind (Or.inr ⟨rfl, rfl, hdropped⟩) ?_
  rintro aux t ⟨hfree, rfl⟩
  refine lenient.checked_bind trivial ?_
  rintro _ t ⟨-, rfl⟩
  rw [Process.withFd_close hfree]
  split_ifs with hfork
  · refine lenient.checked_bind hdropped ?_
    rintro (pid : Nat) t rfl
    split_ifs with hzero
    · -- the child goes on
      refine lenient.checked trivial ?_
      rintro _ u rfl
      exact ⟨true, some pid, rfl, fun _ => rfl⟩
    · -- the parent writes the pid and exits
      refine ⟨trivial, fun _ u hu => ?_⟩
      obtain rfl := world_write hu
      refine lenient.checked_bind trivial fun _ v hv => ?_
      obtain rfl := world_write hv
      exact Or.inr ⟨rfl, hfork, ⟨c, hc, ⟨h.uid, h.gid, h.groups, h.jailed⟩⟩, pid, hzero, rfl⟩
  · exact ⟨_, _, rfl, fun hyes => absurd hyes hfork⟩

/-- The descriptor of a file that is opened in front of the jail. -/
def outside (s₀ : Process tree) (path : Name) (flags : OpenFlags) (cloexec : Bool) :
    Descriptor tree :=
  ⟨.named path flags s₀.uid s₀.root s₀.cwd, cloexec⟩

/-- From `s` to `t` the files have been opened, with descriptors that were free. -/
structure Opened (arguments : Arguments) (s₀ s t : Process tree) (errFd outFd : Nat)
    (pidFd : Option Nat) : Prop where
  errFree : s.fds errFd = none
  outFree : s.fds outFd = none
  pidFree : ∀ fd ∈ pidFd, s.fds fd = none
  err : t.fds errFd = some (outside s₀ arguments.errfile .append false)
  out : t.fds outFd = some (outside s₀ arguments.logfile .append false)
  distinct : errFd ≠ outFd ∧ errFd ∉ pidFd ∧ outFd ∉ pidFd
  others : ∀ fd, fd ≠ errFd → fd ≠ outFd → fd ∉ pidFd → t.fds fd = s.fds fd

/-- The ids and the directories are still those of the start. -/
structure IsOutside (s₀ s : Process tree) : Prop where
  uid : s.uid = s₀.uid
  root : s.root = s₀.root
  cwd : s.cwd = s₀.cwd

/-- A file is opened in front of the jail. -/
theorem eopen_bind {path : Name} {flags : OpenFlags} {mode : Nat} {α : Type} {f : Nat → Prog α}
    {Q : α → Process tree → Prop} (h : IsOutside s₀ s)
    (hpath : path = arguments.errfile ∨ path = arguments.logfile ∨ path = arguments.pidfile)
    (hflags : flags ≠ .readOnly)
    (hf : ∀ fd, s.fds fd = none →
      (f fd).Meets (World users) (Guarded users plat arguments s₀) (Ended users plat arguments s₀) Q
        (s.withFd fd (some (outside s₀ path flags false)))) :
    (eopen path flags mode >>= f).Meets (World users) (Guarded users plat arguments s₀)
      (Ended users plat arguments s₀) Q s := by
  refine lenient.checked_bind (Or.inl ⟨hpath, hflags, h.uid, h.root, h.cwd⟩) ?_
  rintro fd t ⟨hfree, rfl⟩
  have hdescriptor : outside s₀ path flags false =
      ⟨.named path flags s.uid s.root s.cwd, false⟩ := by
    rw [h.uid, h.root, h.cwd]
    rfl
  rw [← hdescriptor]
  exact hf fd hfree

theorem openFiles_meets (h : IsOutside s₀ s) :
    (openFiles arguments).Meets (World users) (Guarded users plat arguments s₀)
      (Ended users plat arguments s₀)
      (fun r t => Opened arguments s₀ s t r.1 r.2.1 r.2.2 ∧ IsOutside s₀ t) s := by
  have hwith : ∀ {t : Process tree} {fd d}, IsOutside s₀ t → IsOutside s₀ (t.withFd fd d) :=
    fun ht => ⟨ht.uid, ht.root, ht.cwd⟩
  refine eopen_bind h (Or.inl rfl) (by decide) fun errFd hErr => ?_
  refine eopen_bind (hwith h) (Or.inr (Or.inl rfl)) (by decide) fun outFd hOut => ?_
  obtain ⟨hne, hOut'⟩ := Process.free_of_withFd hOut
  split_ifs with hfork
  · refine eopen_bind (hwith (hwith h)) (Or.inr (Or.inr rfl)) (by decide) fun pidFd hPid => ?_
    obtain ⟨hpidOut, hPid'⟩ := Process.free_of_withFd hPid
    obtain ⟨hpidErr, hpidFree⟩ := Process.free_of_withFd hPid'
    refine ⟨⟨hErr, hOut', ?_, ?_, ?_, ?_, ?_⟩, hwith (hwith (hwith h))⟩
    · rintro fd ⟨⟩
      exact hpidFree
    · rw [Process.fds_withFd_of_ne hpidErr.symm, Process.fds_withFd_of_ne hne.symm,
        Process.fds_withFd_self]
    · rw [Process.fds_withFd_of_ne hpidOut.symm, Process.fds_withFd_self]
    · exact ⟨hne.symm, fun hmem => hpidErr (Option.some.inj hmem),
        fun hmem => hpidOut (Option.some.inj hmem)⟩
    · intro fd hfdErr hfdOut hfdPid
      rw [Process.fds_withFd_of_ne fun heq => hfdPid (congrArg some heq.symm),
        Process.fds_withFd_of_ne hfdOut, Process.fds_withFd_of_ne hfdErr]
  · refine ⟨⟨hErr, hOut', by simp, ?_, ?_, ⟨hne.symm, by simp, by simp⟩, ?_⟩, hwith (hwith h)⟩
    · rw [Process.fds_withFd_of_ne hne.symm, Process.fds_withFd_self]
    · rw [Process.fds_withFd_self]
    · intro fd hfdErr hfdOut _
      rw [Process.fds_withFd_of_ne hfdOut, Process.fds_withFd_of_ne hfdErr]

/-- The table of the daemon, by the one before `daemonize`. -/
def daemonFds (arguments : Arguments) (s₀ : Process tree) (fds : Nat → Option (Descriptor tree)) :
    Nat → Option (Descriptor tree)
  | 0 => none
  | 1 => some (outside s₀ arguments.logfile .append true)
  | 2 => some (outside s₀ arguments.errfile .append true)
  | fd => fds fd

section Table

variable {fds : Nat → Option (Descriptor tree)} {α : Type} {f : Unit → Prog α}
variable {Q : α → Process tree → Prop}

/-- `close`, with what it does to the table. -/
theorem eclose_bind {fd : Nat}
    (hf : ∀ fds', (∀ x, fds' x = if x = fd then none else fds x) →
      (f ()).Meets (World users) (Guarded users plat arguments s₀) (Ended users plat arguments s₀) Q
        (s.withFds fds')) :
    (eclose fd >>= f).Meets (World users) (Guarded users plat arguments s₀)
      (Ended users plat arguments s₀) Q (s.withFds fds) := by
  refine lenient.checked_bind trivial ?_
  rintro _ t ⟨-, rfl⟩
  exact hf _ fun x => Function.update_apply ..

theorem closePid_bind {pidFd : Option Nat}
    (hf : ∀ fds', (∀ x, fds' x = if x ∈ pidFd then none else fds x) →
      (f ()).Meets (World users) (Guarded users plat arguments s₀) (Ended users plat arguments s₀) Q
        (s.withFds fds')) :
    (closePid pidFd >>= f).Meets (World users) (Guarded users plat arguments s₀)
      (Ended users plat arguments s₀) Q (s.withFds fds) := by
  cases pidFd with
  | none => exact hf fds fun x => by simp
  | some fd => exact eclose_bind fun fds' hfds => hf fds' fun x => by simp [hfds, eq_comm]

/-- The files of the start are closed together. -/
theorem closeFiles_bind {errFd outFd : Nat} {pidFd : Option Nat}
    (hf : ∀ fds', (∀ x, fds' x = if x = errFd ∨ x = outFd ∨ x ∈ pidFd then none else fds x) →
      (f ()).Meets (World users) (Guarded users plat arguments s₀) (Ended users plat arguments s₀) Q
        (s.withFds fds')) :
    (closePid pidFd >>= fun _ => eclose outFd >>= fun _ => eclose errFd >>= f).Meets (World users)
      (Guarded users plat arguments s₀) (Ended users plat arguments s₀) Q (s.withFds fds) := by
  refine closePid_bind fun fds₁ h₁ => eclose_bind fun fds₂ h₂ => eclose_bind fun fds₃ h₃ => ?_
  exact hf fds₃ fun x => by rw [ite_or, ite_or, h₃, h₂, h₁]

/-- `dup2` to another descriptor. -/
theorem edup2_bind {oldfd newfd : Nat} {d : Descriptor tree} (hne : oldfd ≠ newfd)
    (hd : fds oldfd = some d)
    (hf : ∀ fds', (∀ x, fds' x = if x = newfd then some { d with cloexec := false } else fds x) →
      (f ()).Meets (World users) (Guarded users plat arguments s₀) (Ended users plat arguments s₀) Q
        (s.withFds fds')) :
    (edup2 oldfd newfd >>= f).Meets (World users) (Guarded users plat arguments s₀)
      (Ended users plat arguments s₀) Q (s.withFds fds) := by
  refine lenient.checked_bind trivial ?_
  rintro _ t ⟨d', hd', rfl⟩
  obtain rfl : d = d' := Option.some.inj (hd.symm.trans hd')
  rw [if_neg hne]
  exact hf _ fun x => Function.update_apply ..

/-- `SETCLOEXEC`. -/
theorem setcloexec_meets {fd : Nat} {d : Descriptor tree} (hd : fds fd = some d) :
    (setcloexec fd).Meets (World users) (Guarded users plat arguments s₀)
      (Ended users plat arguments s₀)
      (fun _ t => ∃ fds', t = s.withFds fds' ∧
        ∀ x, fds' x = if x = fd then some { d with cloexec := true } else fds x)
      (s.withFds fds) := by
  refine lenient.checked trivial ?_
  rintro _ t ⟨d', hd', rfl⟩
  obtain rfl : d = d' := Option.some.inj (hd.symm.trans hd')
  exact ⟨_, rfl, fun x => Function.update_apply ..⟩

end Table

/-- Behind `redirect` the standard outputs are the files, and their descriptors are closed. -/
theorem redirect_meets {before : Process tree} {errFd outFd : Nat} {pidFd : Option Nat}
    (h : Opened arguments s₀ before s errFd outFd pidFd)
    (hstd : ∀ fd ≤ 2, (before.fds fd).isSome) :
    (redirect errFd outFd pidFd).Meets (World users) (Guarded users plat arguments s₀)
      (Ended users plat arguments s₀)
      (fun _ t => t = s.withFds (daemonFds arguments s₀ before.fds)) (s.withFd 0 none) := by
  -- the standard descriptors were open, so the files have others
  have hlarge : ∀ fd, before.fds fd = none → 2 < fd := by
    intro fd hfree
    by_contra hle
    have hsome := hstd fd (not_lt.1 hle)
    rw [hfree] at hsome
    cases hsome
  have hErr := hlarge errFd h.errFree
  have hOut := hlarge outFd h.outFree
  have hopen : ∀ x ≤ 2, ¬ (x = errFd ∨ x = outFd ∨ x ∈ pidFd) := by
    rintro x hx (rfl | rfl | hmem)
    · exact absurd hErr (not_lt.2 hx)
    · exact absurd hOut (not_lt.2 hx)
    · exact absurd (hlarge x (h.pidFree x hmem)) (not_lt.2 hx)
  have h₀ : ∀ x, (s.withFd 0 none).fds x = if x = 0 then none else s.fds x :=
    fun x => Function.update_apply ..
  have hout : (s.withFd 0 none).fds outFd = some (outside s₀ arguments.logfile .append false) := by
    rw [h₀, if_neg (by omega), h.out]
  change Program.Meets _ _ _ _ _ (s.withFds (s.withFd 0 none).fds)
  refine edup2_bind (by omega) hout fun fds₁ h₁ => ?_
  have herr : fds₁ errFd = some (outside s₀ arguments.errfile .append false) := by
    rw [h₁, if_neg (by omega), h₀, if_neg (by omega), h.err]
  refine edup2_bind (by omega) herr fun fds₂ h₂ => closeFiles_bind fun fds₃ h₃ => ?_
  have hlog : fds₃ 1 = some (outside s₀ arguments.logfile .append false) := by
    rw [h₃, if_neg (hopen 1 (by omega)), h₂, if_neg (by omega), h₁, if_pos rfl]
    rfl
  refine (setcloexec_meets hlog).bind ?_
  rintro _ t ⟨fds₄, rfl, h₄⟩
  have herr' : fds₄ 2 = some (outside s₀ arguments.errfile .append false) := by
    rw [h₄, if_neg (by omega), h₃, if_neg (hopen 2 le_rfl), h₂, if_pos rfl]
    rfl
  refine (setcloexec_meets herr').mono ?_
  rintro _ t ⟨fds₅, rfl, h₅⟩
  refine congrArg s.withFds (funext fun x => ?_)
  match x with
  | 0 =>
    rw [h₅, if_neg (by omega), h₄, if_neg (by omega), h₃, if_neg (hopen 0 (by omega)), h₂,
      if_neg (by omega), h₁, if_neg (by omega), h₀, if_pos rfl]
    rfl
  | 1 =>
    rw [h₅, if_neg (by omega), h₄, if_pos rfl]
    rfl
  | 2 =>
    rw [h₅, if_pos rfl]
    rfl
  | x + 3 =>
    -- the descriptors of the files are free again, and nothing has happened to the others
    have hlater : fds₂ (x + 3) = s.fds (x + 3) := by
      rw [h₂, if_neg (by omega), h₁, if_neg (by omega), h₀, if_neg (by omega)]
    rw [h₅, if_neg (by omega), h₄, if_neg (by omega), h₃, hlater]
    change _ = before.fds (x + 3)
    split_ifs with hfile
    · rcases hfile with hx | hx | hx
      · rw [hx, h.errFree]
      · rw [hx, h.outFree]
      · rw [h.pidFree _ hx]
    · obtain ⟨hx₁, hx₂, hx₃⟩ : x + 3 ≠ errFd ∧ x + 3 ≠ outFd ∧ x + 3 ∉ pidFd := by
        rwa [not_or, not_or] at hfile
      exact h.others _ hx₁ hx₂ hx₃

/-- Behind `daemonize` the process has its credentials and the table of the daemon. -/
theorem daemonize_meets (h : IsOutside s₀ s) (hstd : ∀ fd ≤ 2, (s.fds fd).isSome) :
    (daemonize plat arguments).Meets (World users) (Guarded users plat arguments s₀)
      (Ended users plat arguments s₀)
      (fun r t => ∃ c, credentials users plat arguments = some c ∧
        r = { arguments with chroot := c.dir } ∧ Dropped c s₀ t ∧
          t.fds = daemonFds arguments s₀ s.fds ∧
          (arguments.doFork = true → t.leader = true)) s := by
  refine (openFiles_meets h).bind ?_
  rintro ⟨errFd, outFd, pidFd⟩ t ⟨hopened, houtside⟩
  refine (dropPrivileges_meets houtside.root houtside.cwd).bind ?_
  rintro _ u ⟨c, hc, rfl, hdropped, hfds⟩
  refine (background_meets hc hdropped pidFd).bind ?_
  rintro _ v ⟨leader, forked, rfl, hleader⟩
  have hopened' : Opened arguments s₀ s { u with leader, forked } errFd outFd pidFd :=
    { hopened with
      err := (congrFun hfds errFd).trans hopened.err
      out := (congrFun hfds outFd).trans hopened.out
      others := fun fd h₁ h₂ h₃ => (congrFun hfds fd).trans (hopened.others fd h₁ h₂ h₃) }
  refine (redirect_meets hopened' hstd).bind ?_
  rintro _ w rfl
  exact ⟨c, hc, rfl, ⟨hdropped.uid, hdropped.gid, hdropped.groups, hdropped.jailed⟩, rfl, hleader⟩

theorem initIfaceInformation_meets (fd : Nat) (iface : Name) :
    (initIfaceInformation fd iface).Meets (World users) (Guarded users plat arguments s₀)
      (Ended users plat arguments s₀) (fun _ t => t = s) s := by
  refine lenient.checked_bind trivial ?_
  rintro (ifindex : Int) t rfl
  split_ifs with hnone
  · refine ⟨trivial, fun _ u hu => ?_⟩
    refine ⟨trivial, fun _ v hv => ?_⟩
    exact lenient.message
  · refine lenient.checked_bind trivial ?_
    rintro ⟨saFamily, saData⟩ u rfl
    dsimp only
    split_ifs
    · exact rfl
    · exact lenient.message

/-- The socket is the only new descriptor. -/
theorem generateSocket_meets (iface : Name) :
    (generateSocket iface).Meets (World users) (Guarded users plat arguments s₀)
      (Ended users plat arguments s₀)
      (fun r t => s.fds r.1 = none ∧ t = s.withFd r.1 (some ⟨.socket, true⟩)) s := by
  refine lenient.checked_bind trivial ?_
  rintro (sock : Nat) t ⟨hfree, rfl⟩
  refine lenient.checked_bind trivial ?_
  rintro _ t ⟨d, hd, rfl⟩
  rw [Process.fds_withFd_self] at hd
  cases hd
  rw [Process.withFd_withFd]
  refine (initIfaceInformation_meets sock iface).bind ?_
  rintro ⟨idx, localMac⟩ t rfl
  refine lenient.checked_bind trivial ?_
  rintro _ t rfl
  exact ⟨hfree, rfl⟩

/-- The one end of the pipe that each process keeps. -/
def PipeEnd (s : Process tree) (file : File tree) (w : WorkerProcess) (t : Process tree) : Prop :=
  s.fds w.fd = none ∧ t.fds = Function.update s.fds w.fd (some ⟨file, true⟩)

/-- The two ends of the pipe are made close-on-exec. -/
theorem pipeEnds_bind {fd₀ fd₁ : Nat} {α : Type} {f : Unit → Prog α} {Q : α → Process tree → Prop}
    (hne : fd₀ ≠ fd₁)
    (hf : ∀ fds, fds fd₀ = some ⟨.pipeRead, true⟩ → fds fd₁ = some ⟨.pipeWrite, true⟩ →
      (∀ x, x ≠ fd₀ → x ≠ fd₁ → fds x = s.fds x) →
      (f ()).Meets (World users) (Guarded users plat arguments s₀) (Ended users plat arguments s₀) Q
        (s.withFds fds)) :
    (setcloexec fd₀ >>= fun _ => setcloexec fd₁ >>= f).Meets (World users)
      (Guarded users plat arguments s₀) (Ended users plat arguments s₀) Q
      ((s.withFd fd₀ (some ⟨.pipeRead, false⟩)).withFd fd₁ (some ⟨.pipeWrite, false⟩)) := by
  have hread : ((s.withFd fd₀ (some ⟨.pipeRead, false⟩)).withFd fd₁
      (some ⟨.pipeWrite, false⟩)).fds fd₀ = some ⟨.pipeRead, false⟩ := by
    rw [Process.fds_withFd_of_ne hne, Process.fds_withFd_self]
  change Program.Meets _ _ _ _ _ (s.withFds _)
  refine (setcloexec_meets hread).bind ?_
  rintro _ t ⟨fds₁, rfl, h₁⟩
  have hwrite : fds₁ fd₁ = some ⟨.pipeWrite, false⟩ := by
    rw [h₁, if_neg hne.symm, Process.fds_withFd_self]
  refine (setcloexec_meets hwrite).bind ?_
  rintro _ t ⟨fds₂, rfl, h₂⟩
  refine hf fds₂ ?_ ?_ fun x hx₀ hx₁ => ?_
  · rw [h₂, if_neg hne, h₁, if_pos rfl]
  · rw [h₂, if_pos rfl]
  · rw [h₂, if_neg hx₁, h₁, if_neg hx₀, Process.fds_withFd_of_ne hx₁, Process.fds_withFd_of_ne hx₀]

/-- When the other end is closed, the one that is kept is the only new descriptor. -/
theorem fds_of_keptEnd {fds₀ fds fds' : Nat → Option (Descriptor tree)} {kept other : Nat}
    {d : Option (Descriptor tree)} (hne : kept ≠ other) (hfree : fds₀ other = none)
    (hkept : fds kept = d) (hothers : ∀ x, x ≠ kept → x ≠ other → fds x = fds₀ x)
    (hclose : ∀ x, fds' x = if x = other then none else fds x) :
    fds' = Function.update fds₀ kept d := by
  funext x
  rw [hclose, Function.update_apply]
  split_ifs with hx hx' hx'
  · exact absurd (hx'.symm.trans hx) hne
  · rw [hx, hfree]
  · rw [hx', hkept]
  · exact hothers x hx' hx

theorem workerInit_meets {c : Credentials} (hc : credentials users plat arguments = some c)
    (h : Dropped c s₀ s) (options : Arguments) (sock : Nat) (ifIdx : Int) :
    (workerInit options sock ifIdx).Meets (World users) (Guarded users plat arguments s₀)
      (Ended users plat arguments s₀)
      (fun r t => Dropped c s₀ t ∧ ∃ w : WorkerProcess, w.sock = sock ∧
        w.actionCmd = options.actionCmd ∧
        w.worker = { doPoison := options.doPoison, ifIdx, llmac := options.llmac } ∧
        (r = .inl w ∧ PipeEnd s .pipeRead w t ∨
          r = .inr w ∧ PipeEnd s .pipeWrite w t ∧ t.leader = s.leader)) s := by
  refine lenient.checked_bind trivial ?_
  rintro ⟨fd₀, fd₁⟩ t ⟨hne, h₀, h₁, rfl⟩
  refine pipeEnds_bind hne fun fds hread hwrite hothers => ?_
  refine lenient.checked_bind ⟨c, hc, h.withFds _⟩ ?_
  rintro (pid : Nat) t rfl
  change Program.Meets _ _ _ _ _
    (Process.withFds { s with leader := s.leader && pid ≠ 0, forked := some pid } fds)
  split_ifs with hzero
  · -- the worker keeps the end for reading
    refine eclose_bind fun fds' hclose => ?_
    refine lenient.checked_bind trivial ?_
    rintro _ t rfl
    exact ⟨⟨h.uid, h.gid, h.groups, h.jailed⟩, _, rfl, rfl, rfl,
      Or.inl ⟨rfl, h₀, fds_of_keptEnd hne h₁ hread hothers hclose⟩⟩
  · -- the main process keeps the end for writing
    refine eclose_bind fun fds' hclose => ?_
    have hothers' : ∀ x, x ≠ fd₁ → x ≠ fd₀ → fds x = s.fds x := fun x hx₁ hx₀ => hothers x hx₀ hx₁
    have hleader : (s.leader && decide (pid ≠ 0)) = s.leader := by simp [hzero]
    exact ⟨⟨h.uid, h.gid, h.groups, h.jailed⟩, _, rfl, rfl, rfl,
      Or.inr ⟨rfl, ⟨h₁, fds_of_keptEnd hne.symm h₀ hwrite hothers' hclose⟩, hleader⟩⟩

end Phases

/-! ## The whole startup -/

/-- A process with its end of the pipe. -/
structure Confined (lib : AddressLib) (arguments : Arguments) (c : Credentials)
    (localMac : EtherAddr) (file : File tree) (s₀ : Process tree) (w : WorkerProcess)
    (t : Process tree) : Prop where
  dropped : Dropped c s₀ t
  sockFree : s₀.fds w.sock = none
  fdFree : w.fd = 0 ∨ s₀.fds w.fd = none ∧ w.fd ≠ w.sock
  fds : t.fds = Function.update
    (daemonFds arguments s₀ (Function.update s₀.fds w.sock (some ⟨.socket, true⟩))) w.fd
    (some ⟨file, true⟩)
  actionCmd : w.actionCmd = arguments.actionCmd
  worker : ∃ ifIdx, w.worker =
    { doPoison := arguments.doPoison, ifIdx, llmac := fixupMac lib localMac arguments.llmac }

/-- The process is ready for its loop. -/
def Loop.Confined (lib : AddressLib) (arguments : Arguments) (c : Credentials)
    (s₀ t : Process tree) : Loop → Prop
  | .worker w => ∃ localMac, Startup.Confined lib arguments c localMac .pipeRead s₀ w t
  | .main w options localMac =>
    Startup.Confined lib arguments c localMac .pipeWrite s₀ w t ∧
      options = fixupOptions lib localMac { arguments with chroot := c.dir } ∧
      (arguments.doFork = true → t.leader = true)

/-- The other descriptors are those that were open before. -/
theorem Confined.inherited {lib : AddressLib} {arguments : Arguments} {c : Credentials}
    {localMac : EtherAddr} {file : File tree} {s₀ t : Process tree} {w : WorkerProcess}
    (h : Confined lib arguments c localMac file s₀ w t) {fd : Nat} {d : Descriptor tree}
    (hd : t.fds fd = some d) (hkept : d.cloexec = false) : 2 < fd ∧ s₀.fds fd = some d := by
  rw [h.fds] at hd
  by_cases hpipe : fd = w.fd
  · rw [hpipe, Function.update_self] at hd
    cases hd
    cases hkept
  · rw [Function.update_of_ne hpipe] at hd
    obtain _ | _ | _ | n := fd
    · cases hd
    · cases hd
      cases hkept
    · cases hd
      cases hkept
    · change Function.update s₀.fds w.sock _ (n + 3) = some d at hd
      by_cases hsock : n + 3 = w.sock
      · rw [hsock, Function.update_self] at hd
        cases hd
        cases hkept
      · rw [Function.update_of_ne hsock] at hd
        exact ⟨by omega, hd⟩

section Whole

variable {users : Users} {lib : AddressLib} {plat : Platform} {arguments : Arguments}
variable {s₀ : Process tree}

/-- Where a pipe end fits into the table of the daemon. -/
theorem fdFree_of_daemonFds {sock fd : Nat}
    (h : daemonFds arguments s₀ (Function.update s₀.fds sock (some ⟨.socket, true⟩)) fd = none) :
    fd = 0 ∨ s₀.fds fd = none ∧ fd ≠ sock := by
  obtain _ | _ | _ | n := fd
  · exact Or.inl rfl
  · cases h
  · cases h
  · change Function.update s₀.fds sock _ (n + 3) = none at h
    by_cases hsock : n + 3 = sock
    · rw [hsock, Function.update_self] at h
      cases h
    · rw [Function.update_of_ne hsock] at h
      exact Or.inr ⟨h, hsock⟩

/-- What `main` does behind the options. -/
theorem startProcesses_meets (hstd : ∀ fd ≤ 2, (s₀.fds fd).isSome) :
    (startProcesses lib plat arguments).Meets (World users) (Guarded users plat arguments s₀)
      (Ended users plat arguments s₀)
      (fun loop t => ∃ c, credentials users plat arguments = some c ∧
        loop.Confined lib arguments c s₀ t) s₀ := by
  refine (generateSocket_meets arguments.iface).bind ?_
  rintro ⟨sock, ifIdx, localMac⟩ t ⟨hfree, rfl⟩
  -- the socket closes none of the standard descriptors
  have hstd' : ∀ fd ≤ 2, ((s₀.withFd sock (some ⟨.socket, true⟩)).fds fd).isSome := by
    intro fd hfd
    by_cases hsock : fd = sock
    · rw [hsock, Process.fds_withFd_self]
      rfl
    · rw [Process.fds_withFd_of_ne hsock]
      exact hstd fd hfd
  have houtside : IsOutside s₀ (s₀.withFd sock (some ⟨.socket, true⟩)) := ⟨rfl, rfl, rfl⟩
  refine (daemonize_meets houtside hstd').bind ?_
  rintro _ u ⟨c, hc, rfl, hdropped, hfds, hleader⟩
  refine (workerInit_meets hc hdropped _ sock ifIdx).bind ?_
  rintro r v ⟨hdropped', w, rfl, haction, hworker, hr⟩
  have hconfined : ∀ file : File tree, PipeEnd u file w v →
      Confined lib arguments c localMac file s₀ w v := by
    intro file hpipe
    rw [PipeEnd, hfds] at hpipe
    exact ⟨hdropped', hfree, fdFree_of_daemonFds hpipe.1, hpipe.2, haction, ifIdx, hworker⟩
  rcases hr with ⟨rfl, hpipe⟩ | ⟨rfl, hpipe, hkept⟩
  · exact ⟨c, hc, localMac, hconfined _ hpipe⟩
  · -- whatever `signal` answers for `SIGHUP`, the process goes on
    refine ⟨trivial, fun answer t ht => ?_⟩
    have hsame : t = v := by cases answer <;> exact ht
    subst hsame
    exact ⟨c, hc, hconfined _ hpipe, rfl, fun hfork => hkept.trans (hleader hfork)⟩

/-- What the loops need of the options: the default MAC is one that the blacklist knows, and the
worker can fill every packet. -/
def Loop.Ready : Loop → Prop
  | .worker w => w.worker.doPoison = true ∧
      ∀ rq rand time, (w.worker.fillPacket rq rand time).isSome
  | .main _ options _ => ∃ value, options.mac = defaultTag value

theorem fillPacket_isSome {worker : Worker} (h : worker.llmac ≠ .mcLocal) (rq : RequestInfo)
    (rand : Nat) (time : Int) : (worker.fillPacket rq rand time).isSome := by
  rw [Worker.fillPacket]
  cases rq.type with
  | jobDST => rfl
  | jobSRC =>
    rw [Option.isSome_map, Worker.linkLevelMac]
    cases hllmac : worker.llmac with
    | mcLocal => exact absurd hllmac h
    | _ => rfl

theorem Loop.Confined.ready {d : Defaults} {pause : EtherAddr} {opts : List Opt} {iface : Name}
    {c : Credentials} {t : Process tree} {loop : Loop}
    (h : loop.Confined lib (meaning lib d (.mcFixed pause) opts iface) c s₀ t) : loop.Ready := by
  cases loop with
  | worker w =>
    obtain ⟨localMac, h⟩ := h
    obtain ⟨ifIdx, hworker⟩ := h.worker
    rw [Loop.Ready, hworker]
    exact ⟨meaning_doPoison lib d (.mcFixed pause) opts iface,
      fillPacket_isSome (fixupMac_ne_local lib localMac _)⟩
  | main w options localMac =>
    obtain ⟨-, rfl, -⟩ := h
    have hpause : TaggedMac.mcFixed pause ≠ .mcSame := by simp
    exact exists_defaultTag (meaning_mac_ne_same lib d hpause opts iface) lib localMac

theorem Loop.Confined.inherited {c : Credentials} {t : Process tree} {loop : Loop}
    (h : loop.Confined lib arguments c s₀ t) {fd : Nat} {desc : Descriptor tree}
    (hdesc : t.fds fd = some desc) (hkept : desc.cloexec = false) :
    2 < fd ∧ s₀.fds fd = some desc := by
  cases loop with
  | worker w => exact h.choose_spec.inherited hdesc hkept
  | main w options localMac => exact h.1.inherited hdesc hkept

end Whole

/-! ## A sample start -/

/-- Every directory exists; the root directory has the empty name. -/
def sampleTree : FileTree where
  Dir := Name
  enter root cwd path :=
    if path.head? = some '/' then some (root ++ path) else some (cwd ++ '/' :: path)
  enter_absolute _ _ _ _ h := (if_pos h).trans (if_pos h).symm

def sampleUsers : Users where
  byUid _ := none
  byName name :=
    if name = "ip-sentinel".toList then some ⟨42, 43, "/var/lib/ip-sentinel".toList⟩ else none
  groupByName _ := none

/-- A process of the user `uid` with the three standard descriptors. -/
def sampleProcess (uid : Nat) : Process sampleTree where
  uid := uid
  gid := uid
  groups := [uid]
  root := []
  cwd := []
  fds fd := if fd ≤ 2 then some ⟨.inherited fd, false⟩ else none
  leader := false
  forked := none

def sampleMain (opts : List Opt) : Prog Loop :=
  main referenceAddressLib lp64 sampleDefaults "ip-sentinel".toList opts ["eth0".toList]

theorem sampleProcess_fds {uid : Nat} : ∀ fd ≤ 2, ((sampleProcess uid).fds fd).isSome := by
  intro fd hfd
  have hopen : (sampleProcess uid).fds fd = some ⟨.inherited fd, false⟩ := if_pos hfd
  rw [hopen]
  rfl

/-- Root starts the program in the foreground. -/
theorem exists_sampleRun : ∃ tr loop t,
    Program.Reaches (World sampleUsers) (sampleMain sampleOptions) (sampleProcess 0) tr
      (.ret loop) t := by
  have hrun := Program.reaches_runWith (kernel_world sampleUsers 1234) (sampleMain sampleOptions)
    (sampleProcess 0)
  exact ⟨_, _, _, hrun⟩

/-- Every process that enters its loop has the credentials and the table of descriptors that the
options name; a descriptor that an action could inherit was open before. -/
theorem started_confined (users : Users) (lib : AddressLib) (plat : Platform) (d : Defaults)
    (cmd : Name) (opts : List Opt) (rest : List Name) (s₀ t : Process tree)
    (tr : List (Σ c, Answer c)) (loop : Loop) (hstd : ∀ fd ≤ 2, (s₀.fds fd).isSome)
    (hrun : Program.Reaches (World users) (main lib plat d cmd opts rest) s₀ tr (.ret loop) t) :
    ∃ arguments c, parseOptions lib d cmd opts rest = .ret arguments ∧
      credentials users plat arguments = some c ∧ loop.Confined lib arguments c s₀ t ∧
      loop.Ready ∧
      ∀ fd desc, t.fds fd = some desc → desc.cloexec = false → 2 < fd ∧ s₀.fds fd = some desc := by
  rw [main] at hrun
  rcases parseOptions_cases lib d cmd opts rest with ⟨pause, iface, hparse⟩ | ⟨status, haborts⟩
  · rw [hparse] at hrun
    change Program.Reaches _ (startProcesses lib plat _) s₀ tr _ t at hrun
    obtain ⟨c, hc, hconfined⟩ := (startProcesses_meets hstd).of_reaches hrun
    exact ⟨_, c, hparse, hc, hconfined, hconfined.ready,
      fun fd desc => hconfined.inherited⟩
  · exact absurd rfl (((haborts.bind _).of_reaches hrun).ne_ret loop)

/-- Root starts the program in the foreground, and gets to the loop. -/
theorem started_confined_sample : ∃ tr loop t,
    Program.Reaches (World sampleUsers) (sampleMain sampleOptions) (sampleProcess 0) tr
      (.ret loop) t ∧
    ∃ arguments c, parseOptions referenceAddressLib sampleDefaults "ip-sentinel".toList
        sampleOptions ["eth0".toList] = .ret arguments ∧
      credentials sampleUsers lp64 arguments = some c ∧
      loop.Confined referenceAddressLib arguments c (sampleProcess 0) t ∧ loop.Ready ∧
      ∀ fd desc, t.fds fd = some desc → desc.cloexec = false →
        2 < fd ∧ (sampleProcess 0).fds fd = some desc := by
  obtain ⟨tr, loop, t, hrun⟩ := exists_sampleRun
  exact ⟨tr, loop, t, hrun, started_confined sampleUsers referenceAddressLib lp64 sampleDefaults
    "ip-sentinel".toList sampleOptions ["eth0".toList] (sampleProcess 0) t tr loop
    sampleProcess_fds hrun⟩

/-- At every point of a start, a file is opened and a process is forked as `Guarded` says, and the
program exits as `Ended` says. -/
theorem startup_guarded (users : Users) (lib : AddressLib) (plat : Platform) (d : Defaults)
    (cmd : Name) (opts : List Opt) (rest : List Name) (arguments : Arguments) (s₀ t : Process tree)
    (tr : List (Σ c, Answer c)) (q : Prog Loop)
    (hparse : parseOptions lib d cmd opts rest = .ret arguments)
    (hstd : ∀ fd ≤ 2, (s₀.fds fd).isSome)
    (hrun : Program.Reaches (World users) (main lib plat d cmd opts rest) s₀ tr q t) :
    q.Allowed (Guarded users plat arguments s₀) (Ended users plat arguments s₀) t := by
  rw [main, hparse] at hrun
  exact ((startProcesses_meets hstd).of_reaches hrun).allowed

/-- Root starts the daemon, and the parent exits. -/
theorem startup_guarded_sample : ∃ tr arguments t,
    Program.Reaches (World sampleUsers) (sampleMain []) (sampleProcess 0) tr (.exit 0) t ∧
    Program.Allowed (Guarded sampleUsers lp64 arguments (sampleProcess 0))
      (Ended sampleUsers lp64 arguments (sampleProcess 0)) (.exit 0 : Prog Loop) t := by
  have hrun := Program.reaches_runWith (kernel_world sampleUsers 1234) (sampleMain [])
    (sampleProcess 0)
  exact ⟨_, _, _, hrun, startup_guarded sampleUsers referenceAddressLib lp64 sampleDefaults
    "ip-sentinel".toList [] ["eth0".toList] _ (sampleProcess 0) _ _ (.exit 0) rfl sampleProcess_fds
    hrun⟩

end IpSentinel.Startup
