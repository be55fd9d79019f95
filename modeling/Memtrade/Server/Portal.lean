import Memtrade.Lib.CText
import Memtrade.Lib.Conversion
import Mathlib.Algebra.Ring.Int.Defs
import Mathlib.Logic.Function.Basic
import Mathlib.Tactic.SplitIfs

/-!
# Messages of the spot market and the portal parser

The broker, the producers and the consumers exchange texts. `portal_parser` is
the same loop in `consumer.c` and `producer.c`: it gives a meaning to a token by
its number, and acts on the fourth field of every group of four. What a C array
holds before it is written, and what lies on the stack behind a string that is
copied without its terminator, are inputs of the model.
-/

namespace Memtrade.Server

open CText

/-! ## Messages -/

/-- `enum msg_type`. -/
inductive MsgType where
  | connectionAck
  | producerReg
  | consumerReg
  | registrationAck
  | producerAvailability
  | spotRequest
  | spotAssignmentConsumer
  | spotAssignmentProducer
  | producerReady
deriving DecidableEq, Repr

def MsgType.code : MsgType → Int
  | .connectionAck => 0
  | .producerReg => 1
  | .consumerReg => 2
  | .registrationAck => 3
  | .producerAvailability => 4
  | .spotRequest => 5
  | .spotAssignmentConsumer => 6
  | .spotAssignmentProducer => 7
  | .producerReady => 8

/-- `"%d,%d,%s:%d:%d:%d\n"`, the text of an assignment. -/
def assignmentMsg (type : MsgType) (ip : Text) (port size id : Int) : Text :=
  sep (decimal type.code) ',' (sep (decimal 1) ',' (sep ip ':' (sep (decimal port) ':'
    (sep (decimal size) ':' (decimal id ++ ['\n'])))))

/-- `"%d,%d,%d,%d"`, the text of a report, a request and a readiness message. -/
def recordMsg (type : MsgType) (a b c : Int) : Text :=
  sep (decimal type.code) ',' (sep (decimal a) ',' (sep (decimal b) ',' (decimal c)))

/-- `"%d,%s,%d"`, the text of a registration. -/
def registrationMsg (type : MsgType) (ip : Text) (port : Int) : Text :=
  sep (decimal type.code) ',' (sep ip ',' (decimal port))

/-! ## Peers -/

/-- `enum manager_state`. -/
inductive ManagerState where
  | stop
  | running
deriving DecidableEq, Repr

/-- `struct producer_info_t` of a consumer and `struct consumer_info_t` of a producer;
`ip` is the whole array. -/
structure PeerInfo where
  ip : Text
  port : Int
  nslabs : Int
  id : Int
  managerPort : Int
  managerState : ManagerState
deriving DecidableEq, Repr

/-- A table of peers in memory, by index. -/
abbrev PeerTable := Int → PeerInfo

/-- Uninitialised locals of a call: what is on the stack behind `ptr`'s copy of the
message, the array `addr`, and the integers. -/
structure Locals where
  junk : Text
  addr : Text
  port : Int
  size : Int
  type : Int
  producerId : Int
  consumerId : Int
  managerPort : Int
deriving DecidableEq, Repr

/-- Locals that begin as zeros. -/
def zeroLocals : Locals := ⟨[], [], 0, 0, 0, 0, 0, 0⟩

/-! ## The parser -/

def isDelim (c : Char) : Bool := c == ',' || c == ':'

/-- The locals of the loop and the state that it changes. -/
structure Scan (σ : Type) where
  addr : Text
  port : Int
  size : Int
  state : σ

/-- One round of the loop, at token number `k`. -/
def portalToken {σ : Type} (setCount : Int → σ → σ) (setPeer : Int → Text → Int → Int → σ → σ)
    (k : Nat) (tok : Text) (l : Scan σ) : Scan σ :=
  if k = 0 then l
  else if k = 1 then { l with state := setCount (atoi tok) l.state }
  else if k % 4 = 2 then { l with addr := memcpy l.addr tok }
  else if k % 4 = 3 then { l with port := atoi tok }
  else if k % 4 = 0 then { l with size := atoi tok }
  else { l with state := setPeer (atoi tok) l.addr l.port l.size l.state }

def portalLoop {σ : Type} (setCount : Int → σ → σ) (setPeer : Int → Text → Int → Int → σ → σ) :
    Nat → List Text → Scan σ → Scan σ
  | _, [], l => l
  | k, tok :: toks, l =>
      portalLoop setCount setPeer (k + 1) toks (portalToken setCount setPeer k tok l)

/-- The tokens that the loop gets: `memcpy` copies the message without its end, so the
string goes on with what was on the stack. -/
def portalTokens (junk msg : Text) : List Text := tokens isDelim (cstr (msg ++ junk))

def portalParser {σ : Type} (setCount : Int → σ → σ) (setPeer : Int → Text → Int → Int → σ → σ)
    (locals : Locals) (msg : Text) (state : σ) : σ :=
  (portalLoop setCount setPeer 0 (portalTokens locals.junk msg)
    ⟨locals.addr, locals.port, locals.size, state⟩).state

/-- The entry that a group of four tokens makes of the one with its id. -/
def PeerInfo.assign (p : PeerInfo) (id : Int) (addr : Text) (port size : Int) : PeerInfo :=
  { p with
    id := id
    port := port
    nslabs := wrapInt (p.nslabs + size)
    ip := memcpy p.ip (cstr addr) }

def setPeer (id : Int) (addr : Text) (port size : Int) (table : PeerTable) : PeerTable :=
  Function.update table id ((table id).assign id addr port size)

/-! ## Parsing one assignment -/

/-- An assignment as `find_placement` sends it to one peer. -/
structure Assignment where
  ip : Text
  port : Int
  size : Int
  id : Int
  ipFree : ∀ c ∈ ip, isDelim c = false
  ipString : nul ∉ ip
deriving DecidableEq

def Assignment.text (type : MsgType) (a : Assignment) : Text :=
  assignmentMsg type a.ip a.port a.size a.id

/-- The messages that the broker writes to a client. -/
inductive BrokerMsg where
  | connectionAck
  | registrationAck (id : Int)
  | assignment (a : Assignment)
  | producerReady (producerId consumerId managerPort : Int)
deriving DecidableEq

def BrokerMsg.isAssignment : BrokerMsg → Bool
  | .assignment _ => true
  | _ => false

/-- What the broker writes, `type` being the type of assignments to this client, and
`more` what comes behind: `send_assignment_msg` writes the string alone, the others
write the whole array that they printed into. -/
def BrokerMsg.bytes (type : MsgType) (more : Text) : BrokerMsg → Text
  | .connectionAck => decimal MsgType.connectionAck.code ++ nul :: more
  | .registrationAck id => sep (decimal MsgType.registrationAck.code) ',' (decimal id) ++ nul :: more
  | .assignment a => a.text type ++ more
  | .producerReady p c port => recordMsg .producerReady p c port ++ nul :: more

/-- A receive that begins with a message of the broker, with the locals of the call that
handles it. -/
structure Delivery where
  msg : BrokerMsg
  more : Text
  locals : Locals

def Delivery.bytes (type : MsgType) (d : Delivery) : Text := d.msg.bytes type d.more

/-- The tokens behind an assignment: those after the one that its id begins. -/
def strayTokens (rest : Text) : List Text :=
  tokens isDelim (rest.dropWhile fun c => !isDelim c)

theorem free_of_all {t : Text} (h : t.all (fun c => !isDelim c) = true) :
    ∀ c ∈ t, isDelim c = false := by
  intro c hc
  simpa using List.all_eq_true.mp h c hc

theorem decimal_free (v : Int) : ∀ c ∈ decimal v, isDelim c = false := by
  intro c hc
  rcases mem_decimal hc with h | rfl
  · have hrange := Char.isDigit_iff_toNat.mp h
    simp only [isDelim, Bool.or_eq_false_iff, beq_eq_false_iff_ne]
    constructor
    · rintro rfl
      exact absurd hrange (by decide)
    · rintro rfl
      exact absurd hrange (by decide)
  · decide

theorem Assignment.nul_not_mem (a : Assignment) (type : MsgType) : nul ∉ a.text type := by
  have hcomma : nul ≠ ',' := by decide
  have hcolon : nul ≠ ':' := by decide
  have hlast : nul ∉ decimal a.id ++ ['\n'] := by
    have hnewline : nul ≠ '\n' := by decide
    simp [nul_not_mem_decimal, hnewline]
  unfold Assignment.text assignmentMsg
  apply nul_not_mem_sep (nul_not_mem_decimal _) hcomma
  apply nul_not_mem_sep (nul_not_mem_decimal _) hcomma
  apply nul_not_mem_sep a.ipString hcolon
  apply nul_not_mem_sep (nul_not_mem_decimal _) hcolon
  exact nul_not_mem_sep (nul_not_mem_decimal _) hcolon hlast

theorem nul_not_mem_recordMsg (type : MsgType) (a b c : Int) : nul ∉ recordMsg type a b c := by
  have hcomma : nul ≠ ',' := by decide
  unfold recordMsg
  apply nul_not_mem_sep (nul_not_mem_decimal _) hcomma
  apply nul_not_mem_sep (nul_not_mem_decimal _) hcomma
  exact nul_not_mem_sep (nul_not_mem_decimal _) hcomma (nul_not_mem_decimal _)

theorem scanInts_recordMsg (type : MsgType) (a b c : Int) :
    scanInts 4 (recordMsg type a b c) = [type.code, a, b, c] := by
  unfold recordMsg
  rw [scanInts_sep, scanInts_sep, scanInts_sep, scanInts_last]

/-- The type of an assignment is read from its text, whatever stands behind it. -/
theorem Assignment.scan_type (a : Assignment) (type : MsgType) (rest : Text) :
    scanInts 1 (a.text type ++ rest) = [type.code] := by
  unfold Assignment.text assignmentMsg
  rw [sep, List.append_assoc, List.cons_append]
  exact scanInts_sep 0 _ _

/-- What the client sees of an assignment in its buffer, and behind it. -/
theorem Assignment.cstr_bytes (a : Assignment) (type : MsgType) (buf more : Text) :
    cstr (memcpy buf (a.text type ++ more)) =
      a.text type ++ cstr (more ++ buf.drop (a.text type ++ more).length) := by
  unfold memcpy
  rw [List.append_assoc, cstr_append (a.nul_not_mem type)]

theorem Assignment.cstr_alone (a : Assignment) (type : MsgType) (buf : Text) :
    cstr (memcpy buf (a.text type)) = a.text type ++ cstr (buf.drop (a.text type).length) := by
  simpa using a.cstr_bytes type buf []

/-- The fields of an assignment, with the last one running on into what stands behind. -/
theorem Assignment.text_append (a : Assignment) (type : MsgType) (x : Text) :
    a.text type ++ x =
      sep (decimal type.code) ',' (sep (decimal 1) ',' (sep a.ip ':' (sep (decimal a.port) ':'
        (sep (decimal a.size) ':' (decimal a.id ++ ['\n'] ++ x))))) := by
  simp [Assignment.text, assignmentMsg, sep, List.append_assoc]

theorem Assignment.portalTokens_two (a : Assignment) (type : MsgType) (junk rest : Text) :
    ∃ toks, portalTokens junk (a.text type ++ rest) = decimal type.code :: decimal 1 :: toks := by
  unfold portalTokens
  rw [List.append_assoc, cstr_append (a.nul_not_mem type)]
  generalize cstr (rest ++ junk) = x
  rw [a.text_append, tokens_sep (decimal_ne_nil _) (decimal_free _) (by decide),
    tokens_sep (decimal_ne_nil _) (decimal_free _) (by decide)]
  exact ⟨_, rfl⟩

theorem Assignment.portalTokens_eq (a : Assignment) (hip : a.ip ≠ []) (type : MsgType)
    (junk rest : Text) :
    ∃ last, atoi last = a.id ∧
      portalTokens junk (a.text type ++ rest) =
        [decimal type.code, decimal 1, a.ip, decimal a.port, decimal a.size, last] ++
          strayTokens (cstr (rest ++ junk)) := by
  have hlast : ∀ c ∈ decimal a.id ++ ['\n'], isDelim c = false := by
    intro c hc
    rcases List.mem_append.mp hc with hc | hc
    · exact decimal_free a.id c hc
    · rw [List.mem_singleton.mp hc]
      decide
  unfold portalTokens
  rw [List.append_assoc, cstr_append (a.nul_not_mem type)]
  generalize cstr (rest ++ junk) = x
  refine ⟨decimal a.id ++ ['\n'] ++ x.takeWhile fun c => !isDelim c, ?_, ?_⟩
  · rw [List.append_assoc]
    apply atoi_decimal
    intro c hc
    simp only [List.singleton_append, List.head?_cons, Option.some.injEq] at hc
    subst hc
    decide
  · rw [a.text_append, tokens_sep (decimal_ne_nil _) (decimal_free _) (by decide),
      tokens_sep (decimal_ne_nil _) (decimal_free _) (by decide), tokens_sep hip a.ipFree (by decide),
      tokens_sep (decimal_ne_nil _) (decimal_free _) (by decide),
      tokens_sep (decimal_ne_nil _) (decimal_free _) (by decide),
      tokens_append (by simp) hlast]
    rfl

section Loop

variable {σ : Type} {setCount : Int → σ → σ} {setPeer : Int → Text → Int → Int → σ → σ}

theorem portalParser_invariant {I : σ → Prop} (hcount : ∀ n st, I st → I (setCount n st))
    (hpeer : ∀ id addr port size st, I st → I (setPeer id addr port size st)) (locals : Locals)
    (msg : Text) {state : σ} (h : I state) : I (portalParser setCount setPeer locals msg state) := by
  have hloop : ∀ toks k (l : Scan σ), I l.state → I (portalLoop setCount setPeer k toks l).state := by
    intro toks
    induction toks with
    | nil => exact fun _ _ hl => hl
    | cons tok toks ih =>
        intro k l hl
        apply ih
        unfold portalToken
        split_ifs
        · exact hl
        · exact hcount _ _ hl
        · exact hl
        · exact hl
        · exact hl
        · exact hpeer _ _ _ _ _ hl
  exact hloop _ 0 _ h

theorem portalLoop_stray {toks : List Text} (hfew : toks.length < 4) (l : Scan σ) :
    (portalLoop setCount setPeer 6 toks l).state = l.state := by
  match toks, hfew with
  | [], _ => rfl
  | [_], _ => rfl
  | [_, _], _ => rfl
  | [_, _, _], _ => rfl

/-- A message that begins with an assignment, with little behind it, makes one entry. -/
theorem Assignment.portalParser_eq (a : Assignment) (hip : a.ip ≠ []) (type : MsgType)
    (locals : Locals) (rest : Text) (state : σ)
    (hfew : (strayTokens (cstr (rest ++ locals.junk))).length < 4) :
    portalParser setCount setPeer locals (a.text type ++ rest) state =
      setPeer a.id (memcpy locals.addr a.ip) a.port a.size (setCount 1 state) := by
  obtain ⟨last, hid, htokens⟩ := a.portalTokens_eq hip type locals.junk rest
  have hone : atoi (decimal 1) = 1 := by decide
  have hport : atoi (decimal a.port) = a.port := by
    simpa using atoi_decimal a.port [] (by simp)
  have hsize : atoi (decimal a.size) = a.size := by
    simpa using atoi_decimal a.size [] (by simp)
  unfold portalParser
  rw [htokens]
  show (portalLoop setCount setPeer 6 (strayTokens (cstr (rest ++ locals.junk))) _).state = _
  rw [portalLoop_stray hfew]
  simp [portalToken, hone, hport, hsize, hid]

end Loop

end Memtrade.Server
