import IpSentinel.Net.PrintLib
import IpSentinel.Worker.Jobs

/-!
# The log of the worker

`Worker_printJob` writes a line about each request, and starts an action with the same values as
arguments. `readLog` reads the lines back: a text of such lines says when the requests came, and
what is in each of them (`readLog_logText`), in their order.
-/

set_option autoImplicit false

namespace IpSentinel.Worker

open Foundation

/-! ## The functions of the source -/

/-- What `writeMsgTimestamp` gets: the time by `strftime` with the microseconds, or the label by
`fmt_tai64n`. -/
inductive Stamp where
  | time (hms : List Char) (usec : Nat)
  | tai64n (label : List Char)

/-- The loop of `writeMsgTimestamp`, which returns `fill_cnt`; `aux` reaches its bound in five
rounds. -/
def fillCount : Nat → Nat → Nat → Nat
  | 0, _, fillCnt => fillCnt
  | fuel + 1, aux, fillCnt =>
    if aux < 100000 then fillCount fuel (aux * 10) (fillCnt + 1) else fillCnt

/-- `writeMsgTimestamp`. -/
def writeMsgTimestamp : Stamp → List Char
  | .time hms usec =>
    -- the bit prevents a zero, on which the loop would not end
    let fillCnt := fillCount 5 (usec ||| 1) 1
    hms ++ "000000".toList.take (fillCnt - 1) ++ decimal usec
  | .tai64n label => label

/-- The texts `desc[1]` to `desc[6]` of `Worker_printJob`. -/
structure Desc where
  type : List Char
  spa : List Char
  sha : List Char
  tpa : List Char
  tha : List Char
  mac : List Char
  deriving DecidableEq

/-- What `callAction` passes to `execv`, if there is a command. -/
def callAction (actionCmd : Option (List Char)) (desc : Desc) : Option (List (List Char)) :=
  actionCmd.map fun cmd => [cmd, desc.type, desc.spa, desc.sha, desc.tpa, desc.tha, desc.mac]

section Print

variable {lib : AddressLib} (P : PrintLib lib)

/-- The texts of a request. -/
def jobDesc (rq : RequestInfo) : Desc where
  type :=
    match rq.type with
    | .jobSRC => "0".toList
    | .jobDST => "1".toList
  spa := P.inetNtoa rq.request.arpSpa
  sha := P.etherNtoa rq.request.arpSha
  tpa := P.inetNtoa rq.request.arpTpa
  tha := P.etherNtoa rq.request.arpTha
  mac := P.etherNtoa rq.mac

/-- What `Worker_printJob` writes. -/
def printJob (stamp : Stamp) (rq : RequestInfo) : List Char :=
  let desc := jobDesc P rq
  let arrow :=
    match rq.type with
    | .jobSRC => " >- ".toList
    | .jobDST => " -> ".toList
  writeMsgTimestamp stamp ++ ": ".toList ++ desc.spa ++ "/".toList ++ desc.sha ++ arrow ++
    desc.tpa ++ "/".toList ++ desc.tha ++ " [".toList ++ desc.mac ++ "]\n".toList

/-- The log of requests with their times. -/
def logText (entries : List (Stamp × RequestInfo)) : List Char :=
  entries.flatMap fun e => printJob P e.1 e.2

end Print

/-! ## Reading the log -/

/-- The time in a text; the microseconds have six digits. -/
def Stamp.read (text : List Char) : Option Stamp :=
  if text.head? = some '@' then some (.tai64n text)
  else if (text.drop 8).length = 6 then
    some (.time (text.take 8) (Nat.ofDigitChars 10 (text.drop 8) 0))
  else none

/-- What the log says about a request. -/
structure Report where
  type : JobType
  spa : InAddr
  sha : EtherAddr
  tpa : InAddr
  tha : EtherAddr
  mac : EtherAddr
  deriving DecidableEq

def report (rq : RequestInfo) : Report where
  type := rq.type
  spa := rq.request.arpSpa
  sha := rq.request.arpSha
  tpa := rq.request.arpTpa
  tha := rq.request.arpTha
  mac := rq.mac

/-- The texts in the words of a line: the time, the sender, the arrow, the target and the MAC. -/
def readWords : List (List Char) → Option (List Char × Desc)
  | [stamp, source, arrow, target, mac] => do
    let type ←
      if arrow = ">-".toList then some "0".toList
      else if arrow = "->".toList then some "1".toList
      else none
    match source.splitOn '/', target.splitOn '/' with
    | [spa, sha], [tpa, tha] =>
      some (stamp.dropLast, { type, spa, sha, tpa, tha, mac := mac.tail.dropLast })
    | _, _ => none
  | _ => none

section Read

variable (lib : AddressLib)

/-- The values in the texts. -/
def Desc.read (desc : Desc) : Option Report := do
  let type ←
    if desc.type = "0".toList then some JobType.jobSRC
    else if desc.type = "1".toList then some .jobDST
    else none
  let spa ← lib.inetAton desc.spa
  let sha ← lib.etherAton desc.sha
  let tpa ← lib.inetAton desc.tpa
  let tha ← lib.etherAton desc.tha
  let mac ← lib.etherAton desc.mac
  some { type, spa, sha, tpa, tha, mac }

/-- The time and the values of a line. -/
def readLine (line : List Char) : Option (Stamp × Report) := do
  let (text, desc) ← readWords (line.splitOn ' ')
  let stamp ← Stamp.read text
  let values ← desc.read lib
  some (stamp, values)

def readLog (text : List Char) : Option (List (Stamp × Report)) :=
  (linesOf '\n' text).mapM (readLine lib)

/-- The values in the arguments of an action. -/
def readArgs : List (List Char) → Option Report
  | [_, type, spa, sha, tpa, tha, mac] => Desc.read lib { type, spa, sha, tpa, tha, mac }
  | _ => none

end Read

/-! ## Times -/

/-- The hour, the minute and the second have eight characters; a label starts with `@`. -/
def Stamp.Valid : Stamp → Prop
  | .time hms usec => hms.length = 8 ∧ (∀ c ∈ hms, c.isDigit ∨ c = ':') ∧ usec < 10 ^ 6
  | .tai64n label => label.head? = some '@' ∧ ' ' ∉ label ∧ '\n' ∉ label

/-- The loop makes as many rounds as `aux` needs to get to its bound. -/
theorem fillCount_eq {k fuel aux : Nat} (fillCnt : Nat) (hfuel : k ≤ fuel)
    (hbelow : ∀ j < k, aux * 10 ^ j < 10 ^ 5) (hreached : 10 ^ 5 ≤ aux * 10 ^ k) :
    fillCount fuel aux fillCnt = fillCnt + k := by
  induction k generalizing fuel aux fillCnt with
  | zero =>
    cases fuel with
    | zero => rfl
    | succ fuel =>
      rw [fillCount, if_neg (by omega)]
      rfl
  | succ k ih =>
    cases fuel with
    | zero => omega
    | succ fuel =>
      have haux := hbelow 0 (Nat.succ_pos k)
      rw [fillCount, if_pos (by omega), ih (fillCnt + 1) (by omega)]
      · omega
      · intro j hj
        rw [Nat.mul_assoc, ← Nat.pow_succ']
        exact hbelow (j + 1) (by omega)
      · rwa [Nat.mul_assoc, ← Nat.pow_succ']

/-- The bit changes no number of digits. -/
theorem or_one_lt {usec m : Nat} (h : usec < 2 * m) : usec ||| 1 < 2 * m := by
  have hhalf : (usec ||| 1) / 2 = usec / 2 := by
    rw [Nat.or_div_two]
    exact Nat.or_zero _
  omega

/-- What stands in front of the microseconds fills them up to six digits. -/
theorem fillCount_digits {usec : Nat} (h : usec < 10 ^ 6) :
    fillCount 5 (usec ||| 1) 1 - 1 + (decimal usec).length = 6 := by
  obtain ⟨len, hlen⟩ : ∃ len, (decimal usec).length = len + 1 :=
    Nat.exists_eq_succ_of_ne_zero Nat.length_toDigits_pos.ne'
  have hle : len + 1 ≤ 6 := by
    rw [← hlen]
    exact (Nat.length_toDigits_le_iff (by decide) (by decide)).2 h
  have hlt : usec < 10 ^ (len + 1) :=
    (Nat.length_toDigits_le_iff (by decide) (Nat.succ_pos len)).1 hlen.le
  -- `usec ||| 1` has as many digits as `usec`, and is not zero
  have haux : usec ||| 1 < 10 ^ (len + 1) := by
    rw [Nat.pow_succ'] at hlt ⊢
    have heven : 10 * 10 ^ len = 2 * (5 * 10 ^ len) := by omega
    rw [heven] at hlt ⊢
    exact or_one_lt hlt
  have hge : 10 ^ len ≤ usec ||| 1 := by
    cases len with
    | zero => exact Nat.right_le_or
    | succ len =>
      refine le_trans (not_lt.1 fun hsmall => ?_) Nat.left_le_or
      have hshort := (Nat.length_toDigits_le_iff (by decide) (Nat.succ_pos len)).2 hsmall
      change (decimal usec).length ≤ len + 1 at hshort
      omega
  -- each round multiplies by ten, up to six digits
  have hrounds : fillCount 5 (usec ||| 1) 1 = 1 + (5 - len) := by
    apply fillCount_eq 1 (by omega)
    · intro j hj
      calc (usec ||| 1) * 10 ^ j < 10 ^ (len + 1) * 10 ^ j :=
            Nat.mul_lt_mul_of_pos_right haux (by positivity)
        _ = 10 ^ (len + 1 + j) := (Nat.pow_add ..).symm
        _ ≤ 10 ^ 5 := Nat.pow_le_pow_right (by decide) (by omega)
    · calc 10 ^ 5 = 10 ^ len * 10 ^ (5 - len) := by
            rw [← Nat.pow_add, Nat.add_sub_cancel' (by omega)]
        _ ≤ (usec ||| 1) * 10 ^ (5 - len) := Nat.mul_le_mul_right _ hge
  rw [hrounds, hlen]
  omega

/-- The microseconds are written with six digits. -/
theorem exists_fraction {usec : Nat} (h : usec < 10 ^ 6) (hms : List Char) :
    ∃ digits, writeMsgTimestamp (.time hms usec) = hms ++ digits ∧ digits.length = 6 ∧
      (∀ c ∈ digits, c.isDigit) ∧ Nat.ofDigitChars 10 digits 0 = usec := by
  have hdigits := fillCount_digits h
  have hzeros : "000000".toList.take (fillCount 5 (usec ||| 1) 1 - 1) =
      List.replicate (fillCount 5 (usec ||| 1) 1 - 1) '0' := by
    change (List.replicate 6 '0').take _ = _
    rw [List.take_replicate, min_eq_left (by omega)]
  refine ⟨List.replicate (fillCount 5 (usec ||| 1) 1 - 1) '0' ++ decimal usec, ?_, ?_, ?_, ?_⟩
  · rw [writeMsgTimestamp, hzeros, List.append_assoc]
  · rw [List.length_append, List.length_replicate, hdigits]
  · intro c hc
    rcases List.mem_append.1 hc with hc | hc
    · rw [List.eq_of_mem_replicate hc]
      rfl
    · exact isDigit_of_mem_decimal hc
  · rw [Nat.ofDigitChars_append, Nat.ofDigitChars_replicate_zero, Nat.mul_zero]
    exact Nat.ofDigitChars_ten_toDigits

/-- A time is read back. -/
theorem Stamp.read_writeMsgTimestamp {stamp : Stamp} (h : stamp.Valid) :
    Stamp.read (writeMsgTimestamp stamp) = some stamp := by
  cases stamp with
  | time hms usec =>
    obtain ⟨hlength, hchars, husec⟩ := h
    obtain ⟨digits, htext, hsix, -, hvalue⟩ := exists_fraction husec hms
    have hhead : (hms ++ digits).head? ≠ some '@' := by
      obtain ⟨c, hms, rfl⟩ := List.exists_cons_of_length_pos (hlength ▸ by decide : 0 < hms.length)
      rintro ⟨⟩
      exact absurd (hchars '@' (List.mem_cons_self ..)) (by decide)
    rw [htext, Stamp.read, if_neg hhead, List.drop_left' hlength, List.take_left' hlength,
      if_pos hsix, hvalue]
  | tai64n label => exact if_pos h.1

/-- A time has no blank and no end of a line in it. -/
theorem not_mem_writeMsgTimestamp {stamp : Stamp} (h : stamp.Valid) :
    ' ' ∉ writeMsgTimestamp stamp ∧ '\n' ∉ writeMsgTimestamp stamp := by
  cases stamp with
  | time hms usec =>
    obtain ⟨-, hchars, husec⟩ := h
    obtain ⟨digits, htext, -, hdigits, -⟩ := exists_fraction husec hms
    have hall : ∀ c ∈ writeMsgTimestamp (.time hms usec), c.isDigit ∨ c = ':' := by
      intro c hc
      rw [htext] at hc
      exact (List.mem_append.1 hc).elim (hchars c) fun hc => Or.inl (hdigits c hc)
    exact ⟨fun hblank => absurd (hall _ hblank) (by decide),
      fun hend => absurd (hall _ hend) (by decide)⟩
  | tai64n label => exact h.2

/-! ## Lines -/

section Lines

variable {lib : AddressLib} (P : PrintLib lib)

/-- The arrow between the sender and the target. -/
def arrowOf : JobType → List Char
  | .jobSRC => ">-".toList
  | .jobDST => "->".toList

/-- The words of a line. -/
def wordsOf (stamp : Stamp) (rq : RequestInfo) : List (List Char) :=
  [writeMsgTimestamp stamp ++ [':'],
    P.inetNtoa rq.request.arpSpa ++ '/' :: P.etherNtoa rq.request.arpSha, arrowOf rq.type,
    P.inetNtoa rq.request.arpTpa ++ '/' :: P.etherNtoa rq.request.arpTha,
    '[' :: (P.etherNtoa rq.mac ++ [']'])]

theorem printJob_eq (stamp : Stamp) (rq : RequestInfo) :
    printJob P stamp rq = [' '].intercalate (wordsOf P stamp rq) ++ ['\n'] := by
  cases htype : rq.type <;> simp [printJob, jobDesc, wordsOf, arrowOf, htype, List.intercalate]

variable {P}

theorem not_mem_inetNtoa {c : Char} (h : ¬ (c.isDigit ∨ c = '.')) (ip : InAddr) :
    c ∉ P.inetNtoa ip :=
  fun hc => h (P.inetNtoa_chars ip c hc)

theorem not_mem_etherNtoa {c : Char} (h : ¬ ((hexVal c).isSome ∨ c = ':')) (mac : EtherAddr) :
    c ∉ P.etherNtoa mac :=
  fun hc => h (P.etherNtoa_chars mac c hc)

/-- Neither a blank nor the end of the line is in a word. -/
theorem not_mem_wordsOf {stamp : Stamp} (h : stamp.Valid) (rq : RequestInfo) {c : Char}
    (hc : c = ' ' ∨ c = '\n') : ∀ word ∈ wordsOf P stamp rq, c ∉ word := by
  have hstamp : c ∉ writeMsgTimestamp stamp := by
    rcases hc with rfl | rfl
    · exact (not_mem_writeMsgTimestamp h).1
    · exact (not_mem_writeMsgTimestamp h).2
  have hip : ∀ ip, c ∉ P.inetNtoa ip := by
    rcases hc with rfl | rfl
    · exact not_mem_inetNtoa (by decide)
    · exact not_mem_inetNtoa (by decide)
  have hmac : ∀ mac, c ∉ P.etherNtoa mac := by
    rcases hc with rfl | rfl
    · exact not_mem_etherNtoa (by decide)
    · exact not_mem_etherNtoa (by decide)
  have hne : ∀ d : Char, d ≠ ' ' ∧ d ≠ '\n' → c ≠ d := by
    rintro d hd rfl
    exact hc.elim hd.1 hd.2
  have harrow : c ∉ arrowOf rq.type := by
    cases rq.type <;> simp [arrowOf, hne '>' (by decide), hne '-' (by decide)]
  -- the words are made of these texts and of other characters
  rw [wordsOf]
  simp only [List.forall_mem_cons]
  refine ⟨?_, ?_, harrow, ?_, ?_, List.forall_mem_nil _⟩
  · simp [hstamp, hne ':' (by decide)]
  · simp [hip, hmac, hne '/' (by decide)]
  · simp [hip, hmac, hne '/' (by decide)]
  · simp [hmac, hne '[' (by decide), hne ']' (by decide)]

theorem splitOn_pair (ip : InAddr) (mac : EtherAddr) :
    (P.inetNtoa ip ++ '/' :: P.etherNtoa mac).splitOn '/' = [P.inetNtoa ip, P.etherNtoa mac] := by
  rw [List.splitOn_append_cons_self_of_not_mem (not_mem_inetNtoa (by decide) ip),
    List.splitOn_eq_singleton (not_mem_etherNtoa (by decide) mac)]

/-- The texts in the words are those of the request. -/
theorem readWords_wordsOf (stamp : Stamp) (rq : RequestInfo) :
    readWords (wordsOf P stamp rq) = some (writeMsgTimestamp stamp, jobDesc P rq) := by
  cases htype : rq.type with
  | jobSRC => simp [wordsOf, readWords, splitOn_pair, arrowOf, jobDesc, htype]
  | jobDST => simp [wordsOf, readWords, splitOn_pair, arrowOf, jobDesc, htype]

/-- The texts of a request say what is in it. -/
theorem read_jobDesc (rq : RequestInfo) : (jobDesc P rq).read lib = some (report rq) := by
  cases htype : rq.type with
  | jobSRC =>
    simp [jobDesc, Desc.read, report, htype, P.inetAton_inetNtoa, P.etherAton_etherNtoa]
  | jobDST =>
    simp [jobDesc, Desc.read, report, htype, P.inetAton_inetNtoa, P.etherAton_etherNtoa]

/-- A line is read back. -/
theorem readLine_printed {stamp : Stamp} (h : stamp.Valid) (rq : RequestInfo) :
    readLine lib ([' '].intercalate (wordsOf P stamp rq)) = some (stamp, report rq) := by
  have hsplit : ([' '].intercalate (wordsOf P stamp rq)).splitOn ' ' = wordsOf P stamp rq :=
    List.splitOn_intercalate ' ' (not_mem_wordsOf h rq (Or.inl rfl)) (List.cons_ne_nil _ _)
  simp only [readLine, hsplit, readWords_wordsOf, Stamp.read_writeMsgTimestamp h, read_jobDesc,
    Option.bind_eq_bind, Option.bind_some]

/-- Reading each part of a list. -/
theorem mapM_map_eq_map {α β γ : Type} {f : β → Option γ} {g : α → β} {k : α → γ} {l : List α}
    (h : ∀ x ∈ l, f (g x) = some (k x)) : (l.map g).mapM f = some (l.map k) := by
  induction l with
  | nil => rfl
  | cons x l ih =>
    obtain ⟨hx, hl⟩ := List.forall_mem_cons.1 h
    rw [List.map_cons, List.mapM_cons, hx, ih hl]
    rfl

/-- The log says when the requests came, and what is in each of them, in their order. -/
theorem readLog_logText {entries : List (Stamp × RequestInfo)}
    (h : ∀ e ∈ entries, e.1.Valid) :
    readLog lib (logText P entries) = some (entries.map fun e => (e.1, report e.2)) := by
  have hlines : logText P entries =
      (entries.map fun e => [' '].intercalate (wordsOf P e.1 e.2)).flatMap (· ++ ['\n']) := by
    rw [logText, List.flatMap_map]
    exact congrArg (entries.flatMap ·) (funext fun e => printJob_eq P e.1 e.2)
  rw [readLog, hlines, linesOf_ended]
  · exact mapM_map_eq_map fun e he => readLine_printed (h e he) e.2
  · intro line hline hend
    obtain ⟨e, he, rfl⟩ := List.mem_map.1 hline
    rcases mem_intercalate.1 hend with ⟨hblank, -⟩ | ⟨word, hword, hmem⟩
    · cases hblank
    · exact not_mem_wordsOf (h e he) e.2 (Or.inr rfl) word hword hmem

/-- The arguments of an action say what is in its request. -/
theorem readArgs_callAction (cmd : List Char) (rq : RequestInfo) :
    (callAction (some cmd) (jobDesc P rq)).map (readArgs lib) = some (some (report rq)) :=
  congrArg some (read_jobDesc rq)

end Lines

end IpSentinel.Worker
