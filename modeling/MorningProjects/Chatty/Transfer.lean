import Mathlib.Tactic

/-!
# The transfers of chatty_clt.c

`read_ex` and `write_ex` repeat a system call until `n` bytes are moved. The results of
the calls are given in advance; where they end before the transfer does, it waits.
`read_ex` takes its return value from the last result, which is zero only at an end of
file, and `write_ex` calls `read`.
-/
namespace MorningProjects.Chatty

/-! ### The system call -/

inductive Stop where
  | endOfFile
  | error
  deriving DecidableEq, Repr

/-- A result of the system call; `interrupted` is an error with `EINTR` in `errno`. -/
inductive SysResult where
  | data (b : UInt8) (bs : List UInt8)
  | interrupted
  | stop (why : Stop)
  deriving DecidableEq, Repr

def SysResult.bytes : SysResult → List UInt8
  | .data b bs => b :: bs
  | .interrupted | .stop _ => []

def SysResult.stop? : SysResult → Option Stop
  | .stop why => some why
  | .data _ _ | .interrupted => none

/-- The variables of a transfer. The buffer is what lies in front of the moved pointer and
what lies behind it, and `sent` is what the peer got. `n` is the size of an object, so that
it fits both `size_t` and `ssize_t`. -/
structure Transfer where
  nleft : ℕ
  last : ℤ
  before : List UInt8
  buf : List UInt8
  sent : List UInt8
  deriving DecidableEq, Repr

def Transfer.start (n : ℕ) (buf : List UInt8) : Transfer := ⟨n, -1, [], buf, []⟩

/-- `read(fd, buf, nleft)`: the bytes are stored from the pointer on. -/
def sysRead (r : SysResult) (t : Transfer) : ℤ × Transfer :=
  match r with
  | .data b bs =>
    let bytes := (b :: bs).take t.nleft
    (bytes.length, { t with buf := bytes ++ t.buf.drop bytes.length })
  | .stop .endOfFile => (0, t)
  | .interrupted | .stop .error => (-1, t)

def Transfer.advance (t : Transfer) (count : ℕ) : Transfer :=
  { t with
    nleft := t.nleft - count
    before := t.before ++ t.buf.take count
    buf := t.buf.drop count }

/-! ### The loops -/

/-- The body of a loop, and whether the loop goes on. -/
def readBody (r : SysResult) (t : Transfer) : Bool × Transfer :=
  let (nread, t) := sysRead r t
  let t := { t with last := nread }
  if nread > 0 then (true, t.advance nread.toNat)
  else if 0 = nread then (false, t)
  else if r = .interrupted then (true, t)
  else (false, t)

/-- The system call is `read` here, too. -/
def writeBody (r : SysResult) (t : Transfer) : Bool × Transfer :=
  let (nwritten, t) := sysRead r t
  let t := { t with last := nwritten }
  if nwritten > 0 then (true, t.advance nwritten.toNat)
  else if nwritten < 0 ∧ r = .interrupted then (true, t)
  else (false, t)

/-- The loop over the results, and whether it has ended. -/
def loop (body : SysResult → Transfer → Bool × Transfer) :
    List SysResult → Transfer → Bool × Transfer
  | [], t => (t.nleft = 0, t)
  | r :: rs, t =>
    if t.nleft > 0 then
      if (body r t).1 then loop body rs (body r t).2 else (true, (body r t).2)
    else (true, t)

/-- What a caller sees: the return value, unless the call still waits, the buffer, and what
was sent. -/
structure Outcome where
  rt : Option ℤ
  buf : List UInt8
  sent : List UInt8
  deriving DecidableEq, Repr

def outcome (rt : Transfer → ℤ) (ended : Bool × Transfer) : Outcome :=
  ⟨if ended.1 then some (rt ended.2) else none, ended.2.before ++ ended.2.buf, ended.2.sent⟩

def readEx (n : ℕ) (buf : List UInt8) (results : List SysResult) : Outcome :=
  outcome (fun t => if 0 = t.last then (n : ℤ) - t.nleft else -1)
    (loop readBody results (Transfer.start n buf))

def writeEx (n : ℕ) (buf : List UInt8) (results : List SysResult) : Outcome :=
  outcome (fun t => if t.last < 0 then t.last else n)
    (loop writeBody results (Transfer.start n buf))

/-! ### What has to hold -/

/-- The bytes of the calls up to the one that stops the transfer. -/
def arriving (results : List SysResult) : List UInt8 :=
  (results.takeWhile (·.stop? = none)).flatMap SysResult.bytes

/-- What the first call that fails fails with. -/
def stoppedBy (results : List SysResult) : Option Stop := results.findSome? SysResult.stop?

structure ReadMeets (n : ℕ) (buf : List UInt8) (results : List SysResult) (o : Outcome) :
    Prop where
  all : n ≤ (arriving results).length →
    o.rt = some (n : ℤ) ∧ o.buf = (arriving results).take n ++ buf.drop n
  endOfFile : (arriving results).length < n → stoppedBy results = some .endOfFile →
    o.rt = some ((arriving results).length : ℤ) ∧
      o.buf = arriving results ++ buf.drop (arriving results).length
  error : (arriving results).length < n → stoppedBy results = some .error →
    ∃ rt < 0, o.rt = some rt

def moved (n : ℕ) (results : List SysResult) : ℕ := min n (arriving results).length

structure WriteMeets (n : ℕ) (buf : List UInt8) (results : List SysResult) (o : Outcome) :
    Prop where
  sent : o.sent = buf.take (moved n results)
  all : o.rt = some (n : ℤ) ↔ moved n results = n
  error : moved n results < n → stoppedBy results = some .error → ∃ rt < 0, o.rt = some rt
  unmodified : o.buf = buf

/-! ### The run of a loop -/

section Run

variable {r : SysResult} {t : Transfer} {results : List SysResult}

@[simp] theorem arriving_nil : arriving [] = [] := rfl

@[simp] theorem arriving_stop (why : Stop) (rs : List SysResult) :
    arriving (.stop why :: rs) = [] := rfl

@[simp] theorem arriving_interrupted (rs : List SysResult) :
    arriving (.interrupted :: rs) = arriving rs := rfl

@[simp] theorem arriving_data (b : UInt8) (bs : List UInt8) (rs : List SysResult) :
    arriving (.data b bs :: rs) = (b :: bs) ++ arriving rs := rfl

@[simp] theorem stoppedBy_stop (why : Stop) (rs : List SysResult) :
    stoppedBy (.stop why :: rs) = some why := rfl

@[simp] theorem stoppedBy_interrupted (rs : List SysResult) :
    stoppedBy (.interrupted :: rs) = stoppedBy rs := rfl

@[simp] theorem stoppedBy_data (b : UInt8) (bs : List UInt8) (rs : List SysResult) :
    stoppedBy (.data b bs :: rs) = stoppedBy rs := rfl

/-- The transfer after `bytes` were stored by calls, the last with the result `last`. -/
def Transfer.store (t : Transfer) (last : ℤ) (bytes : List UInt8) : Transfer :=
  ⟨t.nleft - bytes.length, last, t.before ++ bytes, t.buf.drop bytes.length, t.sent⟩

theorem Transfer.store_store (t : Transfer) (last last' : ℤ) (xs ys : List UInt8) :
    (t.store last xs).store last' ys = t.store last' (xs ++ ys) := by
  simp [Transfer.store, Nat.sub_sub]

theorem readBody_data (b : UInt8) (bs : List UInt8) (hleft : t.nleft > 0) :
    readBody (.data b bs) t =
      (true, t.store ((b :: bs).take t.nleft).length ((b :: bs).take t.nleft)) := by
  have hpos : (((b :: bs).take t.nleft).length : ℤ) > 0 := by
    rw [List.length_take, List.length_cons]
    omega
  simp only [readBody, sysRead, if_pos hpos, Transfer.advance, Transfer.store, Int.toNat_natCast,
    List.take_left, List.drop_left]

theorem readBody_interrupted : readBody .interrupted t = (true, t.store (-1) []) := by
  simp [readBody, sysRead, Transfer.store]

theorem readBody_endOfFile : readBody (.stop .endOfFile) t = (false, t.store 0 []) := by
  simp [readBody, sysRead, Transfer.store]

theorem readBody_error : readBody (.stop .error) t = (false, t.store (-1) []) := by
  simp [readBody, sysRead, Transfer.store]

theorem writeBody_eq (r : SysResult) (t : Transfer) : writeBody r t = readBody r t := by
  simp only [writeBody, readBody]
  obtain hpos | hzero | hneg := lt_trichotomy 0 (sysRead r t).1
  · rw [if_pos hpos, if_pos hpos]
  · rw [← hzero]
    simp
  · have hpos : ¬ (sysRead r t).1 > 0 := by omega
    have hne : ¬ 0 = (sysRead r t).1 := by omega
    rw [if_neg hpos, if_neg hpos, if_neg hne]
    simp only [hneg, true_and]

theorem loop_of_nleft (body : SysResult → Transfer → Bool × Transfer) (h : t.nleft = 0) :
    loop body results t = (true, t) := by
  cases results with
  | nil => simp [loop, h]
  | cons r rs => rw [loop, if_neg (by omega)]

theorem loop_cons (h : t.nleft > 0) {t' : Transfer} (hbody : readBody r t = (true, t')) :
    loop readBody (r :: results) t = loop readBody results t' := by
  rw [loop, if_pos h, hbody, if_pos rfl]

/-- When enough bytes arrive the last call has stored some of them. -/
theorem loop_all (hpos : t.nleft > 0) (h : t.nleft ≤ (arriving results).length) :
    ∃ last > 0, loop readBody results t =
      (true, t.store last ((arriving results).take t.nleft)) := by
  induction results generalizing t with
  | nil =>
    rw [arriving_nil, List.length_nil] at h
    omega
  | cons r rs ih =>
    cases r with
    | stop why =>
      rw [arriving_stop, List.length_nil] at h
      omega
    | interrupted =>
      rw [loop_cons hpos readBody_interrupted]
      obtain ⟨last, hlast, hloop⟩ := ih (t := t.store (-1) []) hpos h
      refine ⟨last, hlast, ?_⟩
      rw [hloop, Transfer.store_store]
      rfl
    | data b bs =>
      rw [loop_cons hpos (readBody_data b bs hpos)]
      by_cases hend : t.nleft ≤ (b :: bs).length
      · have hlen : ((b :: bs).take t.nleft).length = t.nleft := List.length_take_of_le hend
        refine ⟨t.nleft, by exact_mod_cast hpos, ?_⟩
        rw [loop_of_nleft, arriving_data, List.take_append_of_le_length hend, hlen]
        rw [Transfer.store, hlen, Nat.sub_self]
      · have htake : (b :: bs).take t.nleft = b :: bs := List.take_of_length_le (by omega)
        rw [arriving_data, List.length_append] at h
        have hleft : (t.store (b :: bs).length (b :: bs)).nleft = t.nleft - (b :: bs).length := rfl
        obtain ⟨last, hlast, hloop⟩ := ih (t := t.store (b :: bs).length (b :: bs))
          (by rw [hleft]; omega) (by rw [hleft]; omega)
        refine ⟨last, hlast, ?_⟩
        rw [htake, hloop, Transfer.store_store, arriving_data, List.take_append, htake, hleft]

/-- When fewer bytes arrive all of them are stored, and the call that stops the transfer is
the last one. -/
theorem loop_short (h : (arriving results).length < t.nleft) :
    ∃ last, loop readBody results t =
        ((stoppedBy results).isSome, t.store last (arriving results)) ∧
      (stoppedBy results = some .endOfFile → last = 0) ∧
      (stoppedBy results = some .error → last = -1) := by
  induction results generalizing t with
  | nil =>
    rw [arriving_nil, List.length_nil] at h
    refine ⟨t.last, ?_, nofun, nofun⟩
    simp [loop, Transfer.store, stoppedBy, Nat.pos_iff_ne_zero.mp h]
  | cons r rs ih =>
    have hpos : t.nleft > 0 := by omega
    cases r with
    | stop why =>
      cases why with
      | endOfFile =>
        refine ⟨0, ?_, fun _ => rfl, nofun⟩
        rw [loop, if_pos hpos, readBody_endOfFile]
        rfl
      | error =>
        refine ⟨-1, ?_, nofun, fun _ => rfl⟩
        rw [loop, if_pos hpos, readBody_error]
        rfl
    | interrupted =>
      rw [loop_cons hpos readBody_interrupted]
      obtain ⟨last, hloop, hend⟩ := ih (t := t.store (-1) []) h
      refine ⟨last, ?_, hend⟩
      rw [hloop, Transfer.store_store]
      rfl
    | data b bs =>
      rw [arriving_data, List.length_append] at h
      have htake : (b :: bs).take t.nleft = b :: bs := List.take_of_length_le (by omega)
      rw [loop_cons hpos (readBody_data b bs hpos), htake]
      have hleft : (t.store (b :: bs).length (b :: bs)).nleft = t.nleft - (b :: bs).length := rfl
      have hnext : (arriving rs).length < (t.store (b :: bs).length (b :: bs)).nleft := by
        rw [hleft]
        omega
      obtain ⟨last, hloop, hend⟩ := ih hnext
      refine ⟨last, ?_, hend⟩
      rw [hloop, Transfer.store_store]
      rfl

theorem loop_writeBody : loop writeBody = loop readBody := by
  congr 1
  funext r t
  exact writeBody_eq r t

end Run

/-! ### The contracts -/

section Contracts

variable {n : ℕ} {buf : List UInt8} {results : List SysResult}

/-- Where all bytes arrive the last result is no end of file, and there was none for `n = 0`. -/
theorem loop_start_all (buf : List UInt8) (h : n ≤ (arriving results).length) :
    ∃ last ≠ 0, (n = 0 → last = -1) ∧
      loop readBody results (Transfer.start n buf) =
        (true, ⟨0, last, (arriving results).take n, buf.drop n, []⟩) := by
  by_cases hn : n = 0
  · subst hn
    refine ⟨-1, by decide, fun _ => rfl, ?_⟩
    exact loop_of_nleft readBody rfl
  · obtain ⟨last, hlast, hloop⟩ :=
      loop_all (t := Transfer.start n buf) (Nat.pos_of_ne_zero hn) h
    have hlen : ((arriving results).take n).length = n := List.length_take_of_le h
    refine ⟨last, by omega, fun h => absurd h hn, ?_⟩
    rw [hloop, Transfer.store, Transfer.start, hlen, Nat.sub_self, List.nil_append]

theorem loop_start_short (buf : List UInt8) (h : (arriving results).length < n) :
    ∃ last, loop readBody results (Transfer.start n buf) =
        ((stoppedBy results).isSome, ⟨n - (arriving results).length, last, arriving results,
          buf.drop (arriving results).length, []⟩) ∧
      (stoppedBy results = some .endOfFile → last = 0) ∧
      (stoppedBy results = some .error → last = -1) := by
  obtain ⟨last, hloop, hend⟩ := loop_short (t := Transfer.start n buf) h
  exact ⟨last, hloop, hend⟩

theorem readEx_short (h : (arriving results).length < n) :
    ReadMeets n buf results (readEx n buf results) := by
  obtain ⟨last, hloop, heof, herror⟩ := loop_start_short buf h
  rw [readEx, outcome, hloop]
  constructor
  · intro hall
    omega
  · intro _ hstop
    rw [hstop, heof hstop]
    refine ⟨?_, rfl⟩
    have hlen : (n : ℤ) - (n - (arriving results).length : ℕ) = (arriving results).length := by
      omega
    simp [hlen]
  · intro _ hstop
    rw [hstop, herror hstop]
    exact ⟨-1, by decide, rfl⟩

theorem readEx_all (h : n ≤ (arriving results).length) :
    (readEx n buf results).rt = some (-1) := by
  obtain ⟨last, hlast, -, hloop⟩ := loop_start_all buf h
  rw [readEx, outcome, hloop, if_pos rfl, if_neg hlast.symm]

theorem readMeets_iff :
    ReadMeets n buf results (readEx n buf results) ↔ (arriving results).length < n := by
  constructor
  · intro h
    by_contra hall
    have hrt := (h.all (not_lt.mp hall)).1
    rw [readEx_all (not_lt.mp hall)] at hrt
    have := Option.some.inj hrt
    omega
  · exact readEx_short

theorem writeEx_eq : writeEx n buf results =
    outcome (fun t => if t.last < 0 then t.last else n)
      (loop readBody results (Transfer.start n buf)) := by
  rw [writeEx, loop_writeBody]

theorem writeEx_sent : (writeEx n buf results).sent = [] := by
  rw [writeEx_eq, outcome]
  rcases lt_or_ge (arriving results).length n with h | h
  · obtain ⟨last, hloop, -⟩ := loop_start_short buf h
    rw [hloop]
  · obtain ⟨last, -, -, hloop⟩ := loop_start_all buf h
    rw [hloop]

theorem writeEx_zero : (writeEx 0 buf results).rt = some (-1) := by
  obtain ⟨last, -, hlast, hloop⟩ := loop_start_all buf (Nat.zero_le _)
  rw [writeEx_eq, outcome, hloop, hlast rfl]
  rfl

theorem writeEx_short (buf : List UInt8) (h : (arriving results).length < n) :
    (stoppedBy results = none → (writeEx n buf results).rt = none) ∧
      (stoppedBy results = some .endOfFile → (writeEx n buf results).rt = some (n : ℤ)) ∧
      (stoppedBy results = some .error → (writeEx n buf results).rt = some (-1)) ∧
      (writeEx n buf results).buf =
        arriving results ++ buf.drop (arriving results).length := by
  obtain ⟨last, hloop, heof, herror⟩ := loop_start_short buf h
  rw [writeEx_eq, outcome, hloop]
  refine ⟨fun hstop => ?_, fun hstop => ?_, fun hstop => ?_, rfl⟩
  · rw [hstop]
    rfl
  · rw [hstop, heof hstop]
    rfl
  · rw [hstop, herror hstop]
    rfl

theorem writeMeets_iff (hbuf : n ≤ buf.length) :
    WriteMeets n buf results (writeEx n buf results) ↔
      0 < n ∧ arriving results = [] ∧ stoppedBy results ≠ some .endOfFile := by
  constructor
  · intro h
    have hpos : 0 < n := by
      by_contra hn
      obtain rfl : n = 0 := by omega
      have hrt := h.all.mpr (Nat.zero_min _)
      rw [writeEx_zero] at hrt
      cases hrt
    have hsent := h.sent
    rw [writeEx_sent] at hsent
    have hmoved : moved n results = 0 := by
      have hlen := congrArg List.length hsent
      rw [List.length_nil, List.length_take, moved] at hlen
      rw [moved]
      omega
    have hnone : arriving results = [] := by
      rw [moved] at hmoved
      rw [← List.length_eq_zero_iff]
      omega
    refine ⟨hpos, hnone, fun hstop => ?_⟩
    have hshort : (arriving results).length < n := by rwa [hnone]
    have hall := h.all.mp ((writeEx_short buf hshort).2.1 hstop)
    omega
  · rintro ⟨hpos, hnone, hstop⟩
    have hmoved : moved n results = 0 := by
      rw [moved, hnone]
      exact Nat.min_zero n
    have hshort : (arriving results).length < n := by rwa [hnone]
    obtain ⟨hwait, -, herror, hkept⟩ := writeEx_short buf hshort
    constructor
    · rw [writeEx_sent, hmoved, List.take_zero]
    · rw [hmoved]
      cases hend : stoppedBy results with
      | none =>
        rw [hwait hend]
        exact ⟨nofun, fun h => absurd h hpos.ne⟩
      | some why =>
        cases why with
        | endOfFile => exact absurd hend hstop
        | error =>
          rw [herror hend]
          refine ⟨fun h => ?_, fun h => absurd h hpos.ne⟩
          have := Option.some.inj h
          omega
    · intro _ hend
      exact ⟨-1, by decide, herror hend⟩
    · rw [hkept, hnone]
      rfl

end Contracts

/-- `read_ex` meets its contract exactly where the calls store fewer than `n` bytes, and
`write_ex` exactly where there is something to write, its calls store nothing and none of
them meets an end of file. -/
theorem readEx_writeEx_meet_iff (n : ℕ) (buf : List UInt8) (hbuf : n ≤ buf.length)
    (results : List SysResult) :
    (ReadMeets n buf results (readEx n buf results) ↔ (arriving results).length < n) ∧
      (WriteMeets n buf results (writeEx n buf results) ↔
        0 < n ∧ arriving results = [] ∧ stoppedBy results ≠ some .endOfFile) :=
  ⟨readMeets_iff, writeMeets_iff hbuf⟩

/-- Two bytes asked for: one arrives before the end of file. -/
theorem readEx_writeEx_meet_iff_eof :
    (ReadMeets 2 [7, 7] [.data 1 [], .stop .endOfFile]
        (readEx 2 [7, 7] [.data 1 [], .stop .endOfFile]) ↔
      (arriving [.data 1 [], .stop .endOfFile]).length < 2) ∧
    (WriteMeets 2 [7, 7] [.data 1 [], .stop .endOfFile]
        (writeEx 2 [7, 7] [.data 1 [], .stop .endOfFile]) ↔
      0 < 2 ∧ arriving [.data 1 [], .stop .endOfFile] = [] ∧
        stoppedBy [.data 1 [], .stop .endOfFile] ≠ some .endOfFile) :=
  readEx_writeEx_meet_iff 2 [7, 7] (by decide) _

/-- One byte asked for and one byte there: `read_ex` fails, and `write_ex` takes the byte into
the buffer it was to send and reports success. -/
theorem readEx_writeEx_one_byte :
    (readEx 1 [7] [.data 1 []] = ⟨some (-1), [1], []⟩ ∧
      ¬ ReadMeets 1 [7] [.data 1 []] (readEx 1 [7] [.data 1 []])) ∧
    writeEx 1 [7] [.data 1 []] = ⟨some 1, [1], []⟩ ∧
      ¬ WriteMeets 1 [7] [.data 1 []] (writeEx 1 [7] [.data 1 []]) := by
  refine ⟨⟨by decide, ?_⟩, by decide, ?_⟩
  · rw [readMeets_iff]
    decide
  · rw [writeMeets_iff (by decide)]
    decide

end MorningProjects.Chatty
