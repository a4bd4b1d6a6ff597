import Theos.Base.Utf8

/-!
# The terminal

The standard streams and `/dev/tty` are the serial port.  `read` waits for a byte and takes
those that are there behind it, up to the end of a line or of the buffer; a carriage return
counts as a newline.  What it takes is sent back while `ECHO` is set.  `write` sends a string
as it is, and bytes that are no string as the characters with these numbers.

`Serial.line` is what the port answers, one look at its status after the other, so that it
stands for every way in which bytes can arrive.  Between two looks nothing else is known of
it: a run that needs more looks than there are has not returned yet.

## Main results

* `terminal_run`: readers get the bytes of the line, in order and each of them once, and what
  is sent is made of what they got and of what was written.
* `terminal_run_returns`: a run returns if the line falls silent once for every read.
* `writes_transparent_iff`: which writes are sent as they are.
-/

namespace Theos
namespace Kernel
namespace Terminal

open Base

/-! ## The code -/

/-- `SERIAL1` with `TTY_LFLAG`: the answers to the next looks at it and all that was sent. -/
structure Serial where
  line : List (Option UInt8)
  sent : Bytes
  lflag : UInt32
deriving DecidableEq, Repr

/-- `TTY_LFLAG_ECHO`. -/
def ttyLflagEcho : UInt32 := 0x8

/-- `DEFAULT_TTY_LFLAG`. -/
def defaultTtyLflag : UInt32 := 0x8a3b

def ttyEchoEnabled (lflag : UInt32) : Bool :=
  lflag &&& ttyLflagEcho ≠ 0

/-- `byte as char`, as `print!` sends it. -/
def charBytes (byte : UInt8) : Bytes :=
  if byte < 0x80 then [byte]
  else [(0xc0 : UInt8) ||| byte >>> 6, (0x80 : UInt8) ||| byte &&& 0x3f]

/-- What is sent for a byte that came: a character is erased by a blank over it. -/
def echoed (byte : UInt8) : Bytes :=
  if byte = 0x08 ∨ byte = 0x7f then [0x08, 0x20, 0x08]
  else if byte = 0x0a then [0x0a]
  else charBytes byte

def echoInputByte (s : Serial) (byte : UInt8) : Serial :=
  if ttyEchoEnabled s.lflag then { s with sent := s.sent ++ echoed byte } else s

def tryReadByte : List (Option UInt8) → Option (Option UInt8 × List (Option UInt8))
  | [] => none
  | look :: line => some (look, line)

/-- The loop only ends with a byte. -/
def readByteBlocking : List (Option UInt8) → Option (Option UInt8 × List (Option UInt8))
  | [] => none
  | none :: line => readByteBlocking line
  | some byte :: line => some (some byte, line)

/-- The next look of `read`: only for the first byte it waits. -/
def nextByte (out : Bytes) (line : List (Option UInt8)) :
    Option (Option UInt8 × List (Option UInt8)) :=
  if out = [] then readByteBlocking line else tryReadByte line

/-- A carriage return is taken for a newline. -/
def inputByte (byte : UInt8) : UInt8 :=
  if byte = 0x0d then 0x0a else byte

/-- The loop of `read`, with the room left in the buffer and what is in it. -/
def readLoop : (room : Nat) → Serial → (out : Bytes) → Option (Bytes × Serial)
  | 0, s, out => some (out, s)
  | room + 1, s, out => do
    let (look, line) ← nextByte out s.line
    match look with
    | none => some (out, { s with line := line })
    | some byte =>
      let byte := inputByte byte
      let s := echoInputByte { s with line := line } byte
      if byte = 0x0a then some (out ++ [byte], s) else readLoop room s (out ++ [byte])

/-- `read` of `Stdin` or `Tty`, into a buffer of `len` bytes. -/
def read (s : Serial) (len : Nat) : Option (Bytes × Serial) :=
  if len = 0 then some ([], s) else readLoop len s []

/-- What `write` prints. -/
def printed (data : Bytes) : Bytes :=
  if Utf8.isValid data then data else data.flatMap charBytes

/-- `write` to `Stdout`, `Stderr` or `Tty`. -/
def write (s : Serial) (data : Bytes) : Serial :=
  { s with sent := s.sent ++ printed data }

/-- `set_tty_termios`; nothing reads the other three flags. -/
def setTtyTermios (s : Serial) (lflag : UInt32) : Serial :=
  { s with lflag := lflag }

/-! ## Runs -/

inductive Call where
  | read (len : Nat)
  | write (data : Bytes)
  | setTermios (lflag : UInt32)
deriving DecidableEq, Repr

/-- What a call puts into the caller's buffer, and the port after it. -/
def step (s : Serial) : Call → Option (Bytes × Serial)
  | .read len => read s len
  | .write data => some ([], write s data)
  | .setTermios lflag => some ([], setTtyTermios s lflag)

/-- The calls of any number of processes, one after the other: `read` and `write` hold the lock
of `VFS`, and `set_tty_termios` stores one word. -/
def run : Serial → List Call → Option (List Bytes × Serial)
  | s, [] => some ([], s)
  | s, call :: calls => do
    let first ← step s call
    let rest ← run first.2 calls
    some (first.1 :: rest.1, rest.2)

/-! ## What a run is for -/

/-- The bytes of some looks at the line, as readers see them. -/
def received (line : List (Option UInt8)) : Bytes :=
  (line.filterMap id).map inputByte

/-- What is sent back for the bytes of a read. -/
def echoes (lflag : UInt32) (got : Bytes) : Bytes :=
  if ttyEchoEnabled lflag then got.flatMap echoed else []

/-- What calls with these results send. -/
def transcript : UInt32 → List (Call × Bytes) → Bytes
  | _, [] => []
  | lflag, (.read _, got) :: calls => echoes lflag got ++ transcript lflag calls
  | lflag, (.write data, _) :: calls => printed data ++ transcript lflag calls
  | _, (.setTermios lflag, _) :: calls => transcript lflag calls

/-- A read returns something that fits, and nothing behind the end of a line. -/
def Answers : Call → Bytes → Prop
  | .read len, got => got.length ≤ len ∧ (len ≠ 0 → got ≠ []) ∧ 0x0a ∉ got.dropLast
  | _, got => got = []

/-- Nothing is lost, doubled or moved between the port and its callers. -/
structure Delivers (s : Serial) (calls : List Call) (results : List Bytes) (s' : Serial) :
    Prop where
  line : ∃ taken, s.line = taken ++ s'.line ∧ results.flatten = received taken
  sent : s'.sent = s.sent ++ transcript s.lflag (calls.zip results)
  results : List.Forall₂ Answers calls results

/-! ### One read -/

@[simp] theorem received_append
    (u v : List (Option UInt8)) :
    received (u ++ v) = received u ++ received v := by
  simp [received]

@[simp] theorem echoes_nil
    (lflag : UInt32) :
    echoes lflag [] = [] := by
  simp [echoes]

theorem echoes_append
    (lflag : UInt32) (u v : Bytes) :
    echoes lflag (u ++ v) = echoes lflag u ++ echoes lflag v := by
  unfold echoes
  split <;> simp

@[simp] theorem echoInputByte_line
    (s : Serial) (byte : UInt8) :
    (echoInputByte s byte).line = s.line := by
  unfold echoInputByte
  split <;> rfl

@[simp] theorem echoInputByte_lflag
    (s : Serial) (byte : UInt8) :
    (echoInputByte s byte).lflag = s.lflag := by
  unfold echoInputByte
  split <;> rfl

@[simp] theorem echoInputByte_sent
    (s : Serial) (byte : UInt8) :
    (echoInputByte s byte).sent = s.sent ++ echoes s.lflag [byte] := by
  unfold echoInputByte echoes
  split <;> simp

/-- Some looks at the line gave the bytes `got`, which were sent back. -/
structure Takes (s : Serial) (got : Bytes) (s' : Serial) : Prop where
  line : ∃ taken, s.line = taken ++ s'.line ∧ got = received taken
  sent : s'.sent = s.sent ++ echoes s.lflag got
  lflag : s'.lflag = s.lflag

theorem Takes.refl
    (s : Serial) :
    Takes s [] s where
  line := ⟨[], rfl, rfl⟩
  sent := by rw [echoes_nil, List.append_nil]
  lflag := rfl

theorem Takes.trans {s s' s'' : Serial} {got got' : Bytes}
    (h : Takes s got s') (h' : Takes s' got' s'') :
    Takes s (got ++ got') s'' := by
  obtain ⟨taken, hline, rfl⟩ := h.line
  obtain ⟨taken', hline', rfl⟩ := h'.line
  refine ⟨⟨taken ++ taken', ?_, (received_append taken taken').symm⟩, ?_, h'.lflag.trans h.lflag⟩
  · rw [hline, hline', List.append_assoc]
  · rw [h'.sent, h.sent, h.lflag, echoes_append, List.append_assoc]

/-- What a look finds, with those before it that found nothing. -/
theorem nextByte_eq {out : Bytes} {line rest : List (Option UInt8)} {look : Option UInt8}
    (h : nextByte out line = some (look, rest)) :
    ∃ n, line = List.replicate n none ++ look :: rest ∧ (out = [] → look ≠ none) := by
  unfold nextByte at h
  by_cases hout : out = []
  · rw [if_pos hout] at h
    induction line with
    | nil =>
      cases h
    | cons first line ih =>
      cases first with
      | none =>
        obtain ⟨n, rfl, hlook⟩ := ih h
        exact ⟨n + 1, rfl, hlook⟩
      | some byte =>
        cases h
        exact ⟨0, rfl, fun _ => Option.some_ne_none byte⟩
  · rw [if_neg hout] at h
    cases line with
    | nil =>
      cases h
    | cons first line =>
      cases h
      exact ⟨0, rfl, fun h => absurd h hout⟩

theorem takes_nothing {s : Serial} {n : Nat} {rest : List (Option UInt8)}
    (h : s.line = List.replicate n none ++ none :: rest) :
    Takes s [] { s with line := rest } where
  line := ⟨List.replicate n none ++ [none], by simp [h], by simp [received]⟩
  sent := by rw [echoes_nil, List.append_nil]
  lflag := rfl

theorem takes_byte {s : Serial} {n : Nat} {byte : UInt8} {rest : List (Option UInt8)}
    (h : s.line = List.replicate n none ++ some byte :: rest) :
    Takes s [inputByte byte] (echoInputByte { s with line := rest } (inputByte byte)) where
  line := ⟨List.replicate n none ++ [some byte], by simp [h], by simp [received]⟩
  sent := echoInputByte_sent _ _
  lflag := echoInputByte_lflag _ _

/-- The loop takes bytes up to the end of a line; the first one it waits for. -/
theorem readLoop_takes {room : Nat} {s s' : Serial} {out result : Bytes}
    (h : readLoop room s out = some (result, s')) :
    ∃ got, result = out ++ got ∧ Takes s got s' ∧ got.length ≤ room ∧
      (room ≠ 0 → result ≠ []) ∧ 0x0a ∉ got.dropLast := by
  induction room generalizing s out with
  | zero =>
    rw [readLoop] at h
    cases h
    exact ⟨[], by simp, Takes.refl _, le_rfl, fun h => absurd rfl h, by simp⟩
  | succ room ih =>
    rw [readLoop] at h
    obtain ⟨⟨look, rest⟩, hlook, h⟩ := Option.bind_eq_some_iff.mp h
    obtain ⟨n, hline, hfirst⟩ := nextByte_eq hlook
    cases look with
    | none =>
      cases h
      exact ⟨[], by simp, takes_nothing hline, Nat.zero_le _, fun _ hout => hfirst hout rfl,
        by simp⟩
    | some byte =>
      have htakes := takes_byte hline
      dsimp only at h
      split at h
      next =>
        cases h
        exact ⟨[inputByte byte], rfl, htakes, by simp, by simp, by simp⟩
      next hbyte =>
        obtain ⟨got, rfl, hgot, hlen, -, hnewline⟩ := ih h
        refine ⟨inputByte byte :: got, by simp, htakes.trans hgot, by simpa using hlen,
          by simp, ?_⟩
        -- only the last byte of the rest can end the line
        cases got with
        | nil => simp
        | cons b got =>
          rw [List.dropLast_cons_of_ne_nil (List.cons_ne_nil b got), List.mem_cons]
          rintro (heq | hmem)
          · exact hbyte heq.symm
          · exact hnewline hmem

theorem read_takes {s s' : Serial} {len : Nat} {got : Bytes}
    (h : read s len = some (got, s')) :
    Takes s got s' ∧ Answers (.read len) got := by
  unfold read at h
  split at h
  next hlen =>
    cases h
    exact ⟨Takes.refl s, Nat.zero_le _, fun h => absurd hlen h, by simp⟩
  next =>
    obtain ⟨_, rfl, htakes, hlen, hne, hnewline⟩ := readLoop_takes h
    exact ⟨htakes, hlen, hne, hnewline⟩

/-! ### Whole runs -/

theorem step_delivers {s s' : Serial} {call : Call} {result : Bytes}
    (h : step s call = some (result, s')) :
    (∃ taken, s.line = taken ++ s'.line ∧ result = received taken) ∧
      Answers call result ∧
      ∀ calls, s'.sent ++ transcript s'.lflag calls =
        s.sent ++ transcript s.lflag ((call, result) :: calls) := by
  cases call with
  | read len =>
    obtain ⟨htakes, hanswers⟩ := read_takes h
    refine ⟨htakes.line, hanswers, fun calls => ?_⟩
    rw [htakes.sent, htakes.lflag, transcript, List.append_assoc]
  | write data =>
    cases h
    exact ⟨⟨[], rfl, rfl⟩, rfl, fun calls => by rw [transcript, write, List.append_assoc]⟩
  | setTermios lflag =>
    cases h
    exact ⟨⟨[], rfl, rfl⟩, rfl, fun calls => by rw [transcript, setTtyTermios]⟩

/-- However calls to the terminal follow each other, the bytes that readers get are those that
came, in order, each once and with every carriage return as a newline; no read returns bytes of
two lines; and what is sent is the echo of what was read and what was written, in the order of
the calls. -/
theorem terminal_run {s s' : Serial} {calls : List Call} {results : List Bytes}
    (h : run s calls = some (results, s')) :
    Delivers s calls results s' := by
  induction calls generalizing s results with
  | nil =>
    cases h
    exact ⟨⟨[], rfl, rfl⟩, by simp [transcript], .nil⟩
  | cons call calls ih =>
    obtain ⟨⟨result, s₁⟩, hstep, h⟩ := Option.bind_eq_some_iff.mp h
    obtain ⟨⟨rest, s₂⟩, hrun, h⟩ := Option.bind_eq_some_iff.mp h
    cases h
    obtain ⟨⟨taken, hline, rfl⟩, hanswers, hsent⟩ := step_delivers hstep
    obtain ⟨⟨taken', hline', hrest⟩, hsent', hresults⟩ := ih hrun
    refine ⟨⟨taken ++ taken', ?_, ?_⟩, ?_, .cons hanswers hresults⟩
    · rw [hline, hline', List.append_assoc]
    · rw [List.flatten_cons, hrest, received_append]
    · rw [hsent', hsent, List.zip_cons_cons]

/-- Two lines arrive while a reader waits, the first with an erased character. -/
theorem terminal_run_two_lines :
    ∃ results s',
      run ⟨[none, some 0x61, some 0x7f, some 0x0d, some 0x62, none], [], defaultTtyLflag⟩
          [.read 8, .write [0x24, 0x20], .setTermios 0, .read 8] = some (results, s') ∧
        results = [[0x61, 0x7f, 0x0a], [], [], [0x62]] ∧
        s'.sent = [0x61, 0x08, 0x20, 0x08, 0x0a, 0x24, 0x20] ∧
        Delivers ⟨[none, some 0x61, some 0x7f, some 0x0d, some 0x62, none], [], defaultTtyLflag⟩
          [.read 8, .write [0x24, 0x20], .setTermios 0, .read 8] results s' :=
  ⟨[[0x61, 0x7f, 0x0a], [], [], [0x62]], ⟨[], [0x61, 0x08, 0x20, 0x08, 0x0a, 0x24, 0x20], 0⟩,
    by decide +kernel, rfl, rfl, terminal_run (by decide +kernel)⟩

/-! ## Runs return -/

/-- How often the line falls silent behind a byte. -/
def silences : List (Option UInt8) → Nat
  | some _ :: none :: line => silences line + 1
  | _ :: line => silences line
  | [] => 0

/-- The calls that may wait. -/
def Call.waits : Call → Bool
  | .read _ => true
  | _ => false

theorem silences_some_cons_le
    (byte : UInt8) (line : List (Option UInt8)) :
    silences (some byte :: line) ≤ silences line + 1 := by
  match line with
  | [] => simp [silences]
  | none :: line => simp [silences]
  | some _ :: line => simp [silences]

theorem readLoop_silent {s : Serial} {out : Bytes} {rest : List (Option UInt8)}
    (h : nextByte out s.line = some (none, rest)) (room : Nat) :
    readLoop (room + 1) s out = some (out, { s with line := rest }) := by
  rw [readLoop, h]
  rfl

theorem readLoop_byte {s : Serial} {out : Bytes} {byte : UInt8} {rest : List (Option UInt8)}
    (h : nextByte out s.line = some (some byte, rest)) (room : Nat) :
    readLoop (room + 1) s out =
      if inputByte byte = 0x0a then
        some (out ++ [inputByte byte], echoInputByte { s with line := rest } (inputByte byte))
      else
        readLoop room (echoInputByte { s with line := rest } (inputByte byte))
          (out ++ [inputByte byte]) := by
  rw [readLoop, h]
  rfl

/-- Once it has a byte, the loop returns when the line falls silent, if not before. -/
theorem readLoop_returns {room : Nat} {s : Serial} {out : Bytes} {byte : UInt8}
    {rest : List (Option UInt8)}
    (hlook : nextByte out s.line = some (some byte, rest))
    (h : 0 < silences (some byte :: rest)) :
    ∃ result s', readLoop (room + 1) s out = some (result, s') ∧
      silences (some byte :: rest) ≤ silences s'.line + 1 := by
  induction room generalizing s out byte rest with
  | zero =>
    rw [readLoop_byte hlook]
    refine ⟨out ++ [inputByte byte],
      echoInputByte { s with line := rest } (inputByte byte), ?_, ?_⟩
    · rw [readLoop, ite_self]
    · rw [echoInputByte_line]
      exact silences_some_cons_le byte rest
  | succ room ih =>
    rw [readLoop_byte hlook]
    split
    next =>
      refine ⟨_, _, rfl, ?_⟩
      rw [echoInputByte_line]
      exact silences_some_cons_le byte rest
    next =>
      have hout : out ++ [inputByte byte] ≠ [] := by simp
      cases rest with
      | nil =>
        simp [silences] at h
      | cons look rest =>
        have hnext : nextByte (out ++ [inputByte byte])
            (echoInputByte { s with line := look :: rest } (inputByte byte)).line =
              some (look, rest) := by
          rw [nextByte, if_neg hout, echoInputByte_line]
          rfl
        cases look with
        | none =>
          rw [readLoop_silent hnext]
          exact ⟨_, _, rfl, le_rfl⟩
        | some next =>
          change ∃ result s', _ ∧ silences (some next :: rest) ≤ _
          exact ih hnext h

theorem readByteBlocking_returns {line : List (Option UInt8)}
    (h : 0 < silences line) :
    ∃ byte rest, readByteBlocking line = some (some byte, rest) ∧
      silences (some byte :: rest) = silences line := by
  induction line with
  | nil =>
    simp [silences] at h
  | cons look line ih =>
    cases look with
    | none => exact ih h
    | some byte => exact ⟨byte, line, rfl, rfl⟩

theorem read_returns {s : Serial}
    (h : 0 < silences s.line) (len : Nat) :
    ∃ got s', read s len = some (got, s') ∧ silences s.line ≤ silences s'.line + 1 := by
  cases len with
  | zero =>
    exact ⟨[], s, rfl, Nat.le_succ _⟩
  | succ len =>
    obtain ⟨byte, rest, hbyte, heq⟩ := readByteBlocking_returns h
    rw [← heq] at h ⊢
    exact readLoop_returns ((if_pos rfl).trans hbyte) h

/-- A step returns if the line falls silent once more, which it may use up. -/
theorem step_returns {s : Serial} {call : Call}
    (h : call.waits.toNat ≤ silences s.line) :
    ∃ result s', step s call = some (result, s') ∧
      silences s.line ≤ silences s'.line + call.waits.toNat := by
  cases call with
  | read len => exact read_returns h len
  | write data => exact ⟨[], write s data, rfl, le_rfl⟩
  | setTermios lflag => exact ⟨[], setTtyTermios s lflag, rfl, le_rfl⟩

/-- Calls return if the line falls silent behind a byte at least once for each read among
them, whatever else comes. -/
theorem terminal_run_returns {s : Serial} {calls : List Call}
    (h : calls.countP Call.waits ≤ silences s.line) :
    ∃ results s', run s calls = some (results, s') := by
  induction calls generalizing s with
  | nil =>
    exact ⟨[], s, rfl⟩
  | cons call calls ih =>
    have hcount : (call :: calls).countP Call.waits =
        calls.countP Call.waits + call.waits.toNat := by
      rw [List.countP_cons]
      cases call.waits <;> rfl
    rw [hcount] at h
    obtain ⟨result, s₁, hstep, hle⟩ := step_returns (le_of_add_le_right h)
    obtain ⟨results, s₂, hrun⟩ := ih (s := s₁) (by omega)
    exact ⟨result :: results, s₂, by simp [run, hstep, hrun]⟩

theorem terminal_run_returns_two :
    ∃ results s', run ⟨[none, some 0x61, none, none, some 0x62, some 0x63, none], [], 0⟩
      [.read 8, .write [0x24, 0x20], .read 1] = some (results, s') :=
  terminal_run_returns (by decide +kernel)

/-! ## Writes -/

theorem length_charBytes
    (byte : UInt8) :
    (charBytes byte).length = if byte < 0x80 then 1 else 2 := by
  unfold charBytes
  split <;> rfl

/-- Printed one by one, bytes take more room unless they are ASCII. -/
theorem length_le_flatMap_charBytes
    (data : Bytes) :
    data.length ≤ (data.flatMap charBytes).length ∧
      ((data.flatMap charBytes).length = data.length → ∀ b ∈ data, b < 0x80) := by
  induction data with
  | nil =>
    simp
  | cons b data ih =>
    rw [List.flatMap_cons, List.length_append, length_charBytes, List.length_cons,
      List.forall_mem_cons]
    split
    next hb => exact ⟨by omega, fun h => ⟨hb, ih.2 (by omega)⟩⟩
    next => exact ⟨by omega, fun h => absurd h (by omega)⟩

theorem length_le_printed
    (data : Bytes) :
    data.length ≤ (printed data).length := by
  unfold printed
  split
  next => exact le_rfl
  next => exact (length_le_flatMap_charBytes data).1

theorem printed_eq_iff {data : Bytes} :
    printed data = data ↔ Utf8.Valid data := by
  unfold printed
  split
  next h => exact iff_of_true rfl (Utf8.isValid_iff.mp h)
  next h =>
    refine ⟨fun heq => ?_, fun hvalid => absurd (Utf8.isValid_iff.mpr hvalid) h⟩
    exact Utf8.valid_of_ascii ((length_le_flatMap_charBytes data).2 (congrArg List.length heq))

theorem length_flatten_le_printed
    (chunks : List Bytes) :
    chunks.flatten.length ≤ (chunks.flatMap printed).length := by
  induction chunks with
  | nil =>
    exact le_rfl
  | cons chunk chunks ih =>
    rw [List.flatMap_cons, List.flatten_cons, List.length_append, List.length_append]
    exact Nat.add_le_add (length_le_printed chunk) ih

/-- Nothing that one write adds can be made up for by another. -/
theorem flatMap_printed_eq_iff {chunks : List Bytes} :
    chunks.flatMap printed = chunks.flatten ↔ ∀ chunk ∈ chunks, Utf8.Valid chunk := by
  induction chunks with
  | nil =>
    simp
  | cons chunk chunks ih =>
    rw [List.flatMap_cons, List.flatten_cons, List.forall_mem_cons, ← printed_eq_iff, ← ih]
    refine ⟨fun h => ?_, fun ⟨h, h'⟩ => by rw [h, h']⟩
    have hlen := congrArg List.length h
    rw [List.length_append, List.length_append] at hlen
    have := length_le_printed chunk
    have := length_flatten_le_printed chunks
    exact List.append_inj h (by omega)

theorem run_writes
    (s : Serial) (chunks : List Bytes) :
    ∃ results s', run s (chunks.map Call.write) = some (results, s') ∧
      s'.sent = s.sent ++ chunks.flatMap printed := by
  induction chunks generalizing s with
  | nil =>
    exact ⟨[], s, rfl, by simp⟩
  | cons chunk chunks ih =>
    obtain ⟨results, s', hrun, hsent⟩ := ih (write s chunk)
    refine ⟨[] :: results, s', by simp [run, step, hrun], ?_⟩
    rw [hsent, write, List.flatMap_cons, List.append_assoc]

/-- Writes are sent as they are if and only if each of them by itself is UTF-8: a text that is
cut within a character, as a buffer cuts it, comes out wrong although the whole is UTF-8. -/
theorem writes_transparent_iff
    (s : Serial) (chunks : List Bytes) :
    (run s (chunks.map Call.write)).map (·.2.sent) = some (s.sent ++ chunks.flatten) ↔
      ∀ chunk ∈ chunks, Utf8.Valid chunk := by
  obtain ⟨results, s', hrun, hsent⟩ := run_writes s chunks
  rw [hrun, Option.map_some, Option.some_inj, hsent, List.append_right_inj,
    flatMap_printed_eq_iff]

end Terminal
end Kernel
end Theos
