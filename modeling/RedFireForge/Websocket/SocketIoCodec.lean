/-
# `RedFireForge.Websocket.SocketIoCodec` — packets of Socket.IO

A MESSAGE of Engine.IO carries a packet of Socket.IO: a type, and after it a count of attachments, a
namespace, a number to answer to and a JSON value, all but the type only where there is one.  The
reader takes them off one after the other, the namespace before the count of attachments.
-/
import Mathlib.Order.WithBot
import RedFireForge.Lib.Address
import RedFireForge.Lib.Text

namespace RedFireForge.Websocket

open RedFireForge.Lib

/-! ## Types -/

inductive EngineType
  | opening
  | close
  | ping
  | pong
  | message
  | upgrade
  | noop
deriving DecidableEq, Repr

def engineTypeName : EngineType → String
  | .opening => "OPEN"
  | .close => "CLOSE"
  | .ping => "PING"
  | .pong => "PONG"
  | .message => "MESSAGE"
  | .upgrade => "UPGRADE"
  | .noop => "NOOP"

inductive SocketType
  | connect
  | disconnect
  | event
  | ack
  | connectError
  | binaryEvent
  | binaryAck
deriving DecidableEq, Repr

namespace SocketType

def name : SocketType → String
  | connect => "CONNECT"
  | disconnect => "DISCONNECT"
  | event => "EVENT"
  | ack => "ACK"
  | connectError => "CONNECT_ERROR"
  | binaryEvent => "BINARY_EVENT"
  | binaryAck => "BINARY_ACK"

def digit : SocketType → Char
  | connect => '0'
  | disconnect => '1'
  | event => '2'
  | ack => '3'
  | connectError => '4'
  | binaryEvent => '5'
  | binaryAck => '6'

def isBinary : SocketType → Bool
  | binaryEvent | binaryAck => true
  | _ => false

end SocketType

/-- Any other character is taken for a NOOP. -/
def engineTypeOf : Char → EngineType
  | '0' => .opening
  | '1' => .close
  | '2' => .ping
  | '3' => .pong
  | '4' => .message
  | '5' => .upgrade
  | _ => .noop

def socketTypeOf : Char → Option SocketType
  | '0' => some .connect
  | '1' => some .disconnect
  | '2' => some .event
  | '3' => some .ack
  | '4' => some .connectError
  | '5' => some .binaryEvent
  | '6' => some .binaryAck
  | _ => none

theorem socketTypeOf_digit (t : SocketType) : socketTypeOf t.digit = some t := by
  cases t <;> rfl

/-! ## The reader -/

/-- `none` is `undefined`; `⊤` is `Infinity`. -/
structure SioDecodedPacket where
  engineType : EngineType
  engineTypeName : String
  socketType : Option SocketType := none
  socketTypeName : Option String := none
  ns : Option (List Char) := none
  eventName : Option String := none
  data : Option Json := none
  ackId : Option (WithTop ℕ) := none
  raw : List Char
  openPayload : Option Json := none
deriving DecidableEq

/-- What the codec uses of the language. -/
structure Runtime where
  /-- `JSON.parse`, with `none` for its exception -/
  parse : List Char → Option Json
  /-- the double nearest to what `parseInt` reads -/
  nearest : ℕ → WithTop ℕ
  exact_below : ∀ n < 2 ^ 53, nearest n = n

/-- A namespace starts with a slash and ends with a comma. -/
def splitNamespace (rest : List Char) : Option (List Char) × List Char :=
  if rest.head? = some '/' then
    if ',' ∈ rest then (some (rest.takeWhile (· ≠ ',')), (rest.dropWhile (· ≠ ',')).tail)
    else (some rest, [])
  else (none, rest)

/-- `^(\d+)-`, for the two types with attachments. -/
def stripAttachments (t : SocketType) (dataStr : List Char) : List Char :=
  if t.isBinary then
    match dataStr.takeWhile Char.isDigit, dataStr.dropWhile Char.isDigit with
    | _ :: _, '-' :: rest => rest
    | _, _ => dataStr
  else dataStr

/-- `^(\d+)(?=[[{])` -/
def splitAckId (dataStr : List Char) : Option ℕ × List Char :=
  match dataStr.takeWhile Char.isDigit, dataStr.dropWhile Char.isDigit with
  | d :: ds, c :: rest =>
      if c = '[' ∨ c = '{' then (some (Nat.ofDigitChars 10 (d :: ds) 0), c :: rest) else (none, dataStr)
  | _, _ => (none, dataStr)

/-- The first element of the array of an event, where it is a string. -/
def eventNameOf (t : SocketType) (parsed : Json) : Option String :=
  if t = .event ∨ t = .binaryEvent then
    match parsed with
    | .arr (.str name :: _) => some name
    | _ => none
  else none

/-- The packet that a MESSAGE carries. -/
def decodeSocket (rt : Runtime) (result : SioDecodedPacket) (t : SocketType) (rest : List Char) :
    SioDecodedPacket :=
  let (ns, dataStr) := splitNamespace rest
  let (ackId, dataStr) := splitAckId (stripAttachments t dataStr)
  let result :=
    { result with
      socketType := some t
      socketTypeName := some t.name
      ns
      ackId := ackId.map rt.nearest }
  if dataStr = [] then result
  else match rt.parse dataStr with
    | some parsed => { result with data := some parsed, eventName := eventNameOf t parsed }
    | none => { result with data := some (.str (String.ofList dataStr)) }

def decodeSioPacket (rt : Runtime) (raw : List Char) : SioDecodedPacket :=
  match raw with
  | [] => { engineType := .noop, engineTypeName := "NOOP", raw }
  | c :: sioPayload =>
      let engineType := engineTypeOf c
      let result : SioDecodedPacket := { engineType, engineTypeName := engineTypeName engineType, raw }
      match engineType, sioPayload with
      | .opening, _ => { result with openPayload := rt.parse sioPayload }
      | .message, d :: rest =>
          match socketTypeOf d with
          | some t => decodeSocket rt result t rest
          | none => result
      | _, _ => result

/-! ## The writers -/

/-- The default namespace is left out. -/
def namespaceText : Option (List Char) → List Char
  | none | some [] | some ['/'] => []
  | some ns => ns ++ [',']

def eventPayload (eventName : String) (data : Option Json) : Json := .arr (.str eventName :: data.toList)

def encodeSioEvent (eventName : String) (data : Option Json) (ns : Option (List Char)) (ackId : Option ℕ) :
    List Char :=
  '4' :: '2' :: (namespaceText ns ++ (((ackId.map (Nat.toDigits 10)).getD []) ++ (eventPayload eventName data).render))

def encodeSioConnect (ns : Option (List Char)) : List Char := '4' :: '0' :: namespaceText ns

/-! ## The grammar -/

structure SioPacket where
  socketType : SocketType
  attachments : Option ℕ
  ns : Option (List Char)
  ackId : Option ℕ
  /-- the text of the payload -/
  json : List Char
  payload : Json

namespace SioPacket

/-- `'4' type [attachments '-'] [namespace ','] [ackId] json` -/
def text (p : SioPacket) : List Char :=
  '4' :: p.socketType.digit ::
    (((p.attachments.map fun n => Nat.toDigits 10 n ++ ['-']).getD []) ++
      (((p.ns.map (· ++ [','])).getD []) ++ (((p.ackId.map (Nat.toDigits 10)).getD []) ++ p.json)))

/-- What the packet says, field by field. -/
def said (p : SioPacket) : SioDecodedPacket where
  engineType := .message
  engineTypeName := "MESSAGE"
  socketType := some p.socketType
  socketTypeName := some p.socketType.name
  ns := p.ns
  eventName := eventNameOf p.socketType p.payload
  data := some p.payload
  ackId := p.ackId.map fun n => (n : WithTop ℕ)
  raw := p.text

end SioPacket

/-- It starts with a slash, and has no comma. -/
def IsNamespace (ns : List Char) : Prop := ns.head? = some '/' ∧ ',' ∉ ns

structure InGrammar (rt : Runtime) (p : SioPacket) : Prop where
  attachments : p.attachments.isSome = p.socketType.isBinary
  ns : ∀ ns ∈ p.ns, IsNamespace ns
  ackId : ∀ n ∈ p.ackId, n < 2 ^ 53
  payload : (∃ items, p.payload = .arr items) ∨ ∃ fields, p.payload = .obj fields
  opened : ∃ c rest, p.json = c :: rest ∧ (c = '[' ∨ c = '{')
  parses : rt.parse p.json = some p.payload

/-! ## What is taken off -/

section Fields

variable {ns : Option (List Char)} {ackId : Option ℕ} {n : ℕ} {r : List Char}

theorem digits_append (hr : ∀ c ∈ r.head?, c.isDigit = false) :
    (Nat.toDigits 10 n ++ r).takeWhile Char.isDigit = Nat.toDigits 10 n ∧
      (Nat.toDigits 10 n ++ r).dropWhile Char.isDigit = r := by
  have hdigits : ∀ c ∈ Nat.toDigits 10 n, Char.isDigit c = true := fun c hc => Ipv4.isDigit_toDigits hc
  rw [List.takeWhile_append_of_pos hdigits, List.dropWhile_append_of_pos hdigits]
  cases r with
  | nil => exact ⟨List.append_nil _, rfl⟩
  | cons c r =>
      have hc := hr c rfl
      rw [List.takeWhile_cons_of_neg (by simp [hc]), List.dropWhile_cons_of_neg (by simp [hc])]
      exact ⟨List.append_nil _, rfl⟩

theorem head_digits_append {c : Char} (hc : c ∈ (Nat.toDigits 10 n ++ r).head?) : c.isDigit = true := by
  rw [List.head?_append_of_ne_nil _ Nat.toDigits_ne_nil] at hc
  exact Ipv4.isDigit_toDigits (List.mem_of_mem_head? hc)

theorem splitNamespace_none (hr : r.head? ≠ some '/') : splitNamespace r = (none, r) := if_neg hr

theorem splitNamespace_text (hns : ∀ ns' ∈ ns, IsNamespace ns') (hr : r.head? ≠ some '/') :
    splitNamespace (((ns.map (· ++ [','])).getD []) ++ r) = (ns, r) := by
  cases ns with
  | none => exact splitNamespace_none hr
  | some ns =>
      obtain ⟨hslash, hcomma⟩ := hns ns rfl
      have hhead : (ns ++ ',' :: r).head? = some '/' := by
        rw [List.head?_append, hslash]
        rfl
      show splitNamespace (ns ++ [','] ++ r) = (some ns, r)
      rw [List.append_assoc, List.singleton_append, splitNamespace, if_pos hhead, if_pos (by simp),
        takeWhile_append_cons hcomma, dropWhile_append_cons hcomma, List.tail_cons]

/-- The default namespace is written as none. -/
theorem namespaceText_eq (hns : ∀ ns' ∈ ns, IsNamespace ns') :
    namespaceText ns = (((ns.filter (· ≠ ['/'])).map (· ++ [','])).getD []) := by
  cases ns with
  | none => rfl
  | some ns =>
      obtain ⟨hslash, -⟩ := hns ns rfl
      by_cases hdefault : ns = ['/']
      · rw [hdefault]
        rfl
      · rw [Option.filter_some, if_pos (by simpa using hdefault)]
        cases ns with
        | nil => cases hslash
        | cons c cs =>
            unfold namespaceText
            split
            next heq => cases heq
            next heq => cases heq
            next heq => exact absurd (Option.some.inj heq) hdefault
            next heq => rw [← Option.some.inj heq, Option.map_some, Option.getD_some]

theorem stripAttachments_text {t : SocketType} (ht : t.isBinary = true) :
    stripAttachments t (Nat.toDigits 10 n ++ '-' :: r) = r := by
  obtain ⟨htake, hdrop⟩ := digits_append (n := n) (r := '-' :: r) (by simp)
  obtain ⟨d, ds, hd⟩ := List.exists_cons_of_ne_nil (Nat.toDigits_ne_nil (b := 10) (n := n))
  rw [stripAttachments, if_pos ht, htake, hdrop, hd]
  rfl

theorem splitAckId_text {c : Char} (hc : c = '[' ∨ c = '{') :
    splitAckId (((ackId.map (Nat.toDigits 10)).getD []) ++ c :: r) = (ackId, c :: r) := by
  have hdigit : c.isDigit = false := by
    rcases hc with rfl | rfl
    · rfl
    · rfl
  cases ackId with
  | none =>
      show splitAckId (c :: r) = (none, c :: r)
      rw [splitAckId, List.takeWhile_cons_of_neg (by simp [hdigit])]
  | some n =>
      obtain ⟨htake, hdrop⟩ := digits_append (n := n) (r := c :: r) (by simp [hdigit])
      obtain ⟨d, ds, hd⟩ := List.exists_cons_of_ne_nil (Nat.toDigits_ne_nil (b := 10) (n := n))
      show splitAckId (Nat.toDigits 10 n ++ c :: r) = (some n, c :: r)
      rw [splitAckId, htake, hdrop, hd]
      dsimp only
      rw [if_pos hc, ← hd, Nat.ofDigitChars_ten_toDigits]

theorem head_ackText {c : Char} (hc : c = '[' ∨ c = '{') :
    (((ackId.map (Nat.toDigits 10)).getD []) ++ c :: r).head? ≠ some '/' := by
  cases ackId with
  | none => rcases hc with rfl | rfl <;> simp
  | some n =>
      intro hhead
      exact absurd (head_digits_append (Option.mem_def.mpr hhead)) (by decide)

end Fields

/-! ## Packets -/

section Packets

variable {rt : Runtime} {p : SioPacket} {t : SocketType}

theorem decodeSioPacket_message (rt : Runtime) (t : SocketType) (rest : List Char) :
    decodeSioPacket rt ('4' :: t.digit :: rest) =
      decodeSocket rt ⟨.message, "MESSAGE", none, none, none, none, none, none, '4' :: t.digit :: rest, none⟩
        t rest := by
  show (match socketTypeOf t.digit with
    | some t => decodeSocket rt _ t rest
    | none => _) = _
  rw [socketTypeOf_digit]
  rfl

/-- Once the fields are split as the packet has them, the rest is read as it says. -/
theorem decodeSocket_of_split {result : SioDecodedPacket} {rest dataStr : List Char} {c : Char} {json : List Char}
    {ns : Option (List Char)} {ackId : Option ℕ} {parsed : Json}
    (hns : splitNamespace rest = (ns, dataStr))
    (hackId : splitAckId (stripAttachments t dataStr) = (ackId, c :: json))
    (hparse : rt.parse (c :: json) = some parsed) (hbound : ∀ n ∈ ackId, n < 2 ^ 53) :
    decodeSocket rt result t rest =
      { result with
        socketType := some t
        socketTypeName := some t.name
        ns
        ackId := ackId.map fun n => (n : WithTop ℕ)
        data := some parsed
        eventName := eventNameOf t parsed } := by
  have hnearest : ackId.map rt.nearest = ackId.map fun n => (n : WithTop ℕ) := by
    cases ackId with
    | none => rfl
    | some n => exact congrArg some (rt.exact_below n (hbound n rfl))
  unfold decodeSocket
  simp only [hns, hackId, hparse, hnearest, reduceCtorEq, if_false]

theorem decode_text (h : InGrammar rt p) (hns : p.socketType.isBinary = true → p.ns = none) :
    decodeSioPacket rt p.text = p.said := by
  obtain ⟨c, rest, hjson, hc⟩ := h.opened
  have hparse := h.parses
  rw [hjson] at hparse
  rw [SioPacket.text, decodeSioPacket_message]
  cases hbinary : p.socketType.isBinary with
  | true =>
      obtain ⟨n, hn⟩ := Option.isSome_iff_exists.mp (h.attachments.trans hbinary)
      have hslash : (Nat.toDigits 10 n ++ ('-' :: (((p.ackId.map (Nat.toDigits 10)).getD []) ++ p.json))).head? ≠
          some '/' := by
        intro hhead
        exact absurd (head_digits_append (Option.mem_def.mpr hhead)) (by decide)
      rw [hn, hns hbinary]
      simp only [Option.map_some, Option.getD_some, Option.map_none, Option.getD_none, List.nil_append,
        List.append_assoc, List.singleton_append]
      rw [decodeSocket_of_split (splitNamespace_none hslash)
        (by rw [stripAttachments_text hbinary, hjson]; exact splitAckId_text hc) hparse h.ackId]
      simp only [SioPacket.said, SioPacket.text, hn, hns hbinary, Option.map_some, Option.getD_some,
        Option.map_none, Option.getD_none, List.nil_append, List.append_assoc, List.singleton_append]
  | false =>
      have hn : p.attachments = none := by
        have := h.attachments.trans hbinary
        rwa [Option.isSome_eq_false_iff, Option.isNone_iff_eq_none] at this
      have hstrip : ∀ cs, stripAttachments p.socketType cs = cs := by
        intro cs
        rw [stripAttachments, hbinary]
        rfl
      rw [hn]
      simp only [Option.map_none, Option.getD_none, List.nil_append]
      rw [hjson, decodeSocket_of_split (splitNamespace_text h.ns (head_ackText hc))
        (by rw [hstrip]; exact splitAckId_text hc) hparse h.ackId]
      simp only [SioPacket.said, SioPacket.text, hn, hjson, Option.map_none, Option.getD_none, List.nil_append]

/-- After a count of attachments no namespace is seen. -/
theorem decode_text_ns (h : InGrammar rt p) (hbinary : p.socketType.isBinary = true) :
    (decodeSioPacket rt p.text).ns = none := by
  obtain ⟨n, hn⟩ := Option.isSome_iff_exists.mp (h.attachments.trans hbinary)
  have hkept : ∀ (result : SioDecodedPacket) (rest : List Char),
      (decodeSocket rt result p.socketType rest).ns = (splitNamespace rest).1 := by
    intro result rest
    unfold decodeSocket
    dsimp only
    split
    · rfl
    · split <;> rfl
  rw [SioPacket.text, decodeSioPacket_message, hkept, hn, Option.map_some, Option.getD_some, List.append_assoc]
  refine congrArg Prod.fst (splitNamespace_none fun hhead => ?_)
  exact absurd (head_digits_append (Option.mem_def.mpr hhead)) (by decide)

end Packets

/-- What is written to connect is read as a CONNECT without a payload. -/
theorem decode_connect (rt : Runtime) {ns : Option (List Char)} (hns : ∀ ns' ∈ ns, IsNamespace ns') :
    decodeSioPacket rt (encodeSioConnect ns) =
      { engineType := .message
        engineTypeName := "MESSAGE"
        socketType := some .connect
        socketTypeName := some "CONNECT"
        ns := ns.filter (· ≠ ['/'])
        raw := encodeSioConnect ns } := by
  have hkept : ∀ ns' ∈ ns.filter (· ≠ ['/']), IsNamespace ns' :=
    fun ns' hns' => hns ns' (Option.filter_eq_some_iff.mp hns').1
  have hsplit := splitNamespace_text (r := []) hkept (by simp)
  rw [List.append_nil] at hsplit
  rw [encodeSioConnect, namespaceText_eq hns]
  refine (decodeSioPacket_message rt .connect _).trans ?_
  unfold decodeSocket
  rw [hsplit]
  rfl

def helloPayload : Json := eventPayload "hello" (some (.bool true))

def chatRuntime : Runtime where
  parse text := if text = helloPayload.render then some helloPayload else none
  nearest n := if n < 2 ^ 53 then n else ⊤
  exact_below _ hn := if_pos hn

def chatPacket : SioPacket :=
  ⟨.ack, none, some "/chat".toList, some 7, helloPayload.render, helloPayload⟩

end RedFireForge.Websocket
