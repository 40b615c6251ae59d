import Sponge.SharedBuffer

/-!
# The parser over shared buffers

The parser reads from a buffer whose calls may throw. It answers any sequence of requests without
an exception, as the parser over plain strings does, and reads back what was unparsed.
-/
namespace Sponge
open BigEndian

/-- What a parser may be asked for. -/
inductive Request where
  | u8
  | u16
  | u32
  | removePrefix (n : ℕ)

/-- An integer with its width. -/
inductive Token where
  | u8 (val : UInt8)
  | u16 (val : UInt16)
  | u32 (val : UInt32)
  deriving DecidableEq

namespace Request

/-- The number of bytes asked for. -/
def size : Request → ℕ
  | .u8 => 1
  | .u16 => 2
  | .u32 => 4
  | .removePrefix n => n

/-- The integer a request is answered with; `removePrefix` has none. -/
def token : Request → ℕ → Option Token
  | .u8, n => some (.u8 (UInt8.ofNat n))
  | .u16, n => some (.u16 (UInt16.ofNat n))
  | .u32, n => some (.u32 (UInt32.ofNat n))
  | .removePrefix _, _ => none

/-- The answer zero. -/
def zero (request : Request) : Option Token := request.token 0

end Request

namespace Token

def request : Token → Request
  | .u8 _ => .u8
  | .u16 _ => .u16
  | .u32 _ => .u32

def unparse (s : List Byte) : Token → List Byte
  | .u8 val => NetUnparser.u8 s val
  | .u16 val => NetUnparser.u16 s val
  | .u32 val => NetUnparser.u32 s val

def toNat : Token → ℕ
  | .u8 val => val.toNat
  | .u16 val => val.toNat
  | .u32 val => val.toNat

theorem unparse_eq (s : List Byte) (token : Token) :
    token.unparse s = s ++ encode token.request.size token.toNat := by
  cases token <;> exact NetUnparser.unparseInt_eq _ _ _

/-- The integer is read back from its bytes. -/
theorem token_decode_encode (token : Token) :
    token.request.token (decode (encode token.request.size token.toNat)) = some token := by
  cases token with
  | u8 val =>
    have hval : decode (encode 1 val.toNat) = val.toNat := decode_encode_of_lt val.toNat_lt
    simp only [request, Request.size, toNat, hval, Request.token, UInt8.ofNat_toNat]
  | u16 val =>
    have hval : decode (encode 2 val.toNat) = val.toNat := decode_encode_of_lt val.toNat_lt
    simp only [request, Request.size, toNat, hval, Request.token, UInt16.ofNat_toNat]
  | u32 val =>
    have hval : decode (encode 4 val.toNat) = val.toNat := decode_encode_of_lt val.toNat_lt
    simp only [request, Request.size, toNat, hval, Request.token, UInt32.ofNat_toNat]

end Token

/-- The answer of the parser over plain strings. -/
def NetParser.answer : Request → StateM NetParser (Option Token)
  | .u8 => (fun val => some (.u8 val)) <$> NetParser.u8
  | .u16 => (fun val => some (.u16 val)) <$> NetParser.u16
  | .u32 => (fun val => some (.u32 val)) <$> NetParser.u32
  | .removePrefix n => (fun _ => none) <$> NetParser.removePrefix n

structure SharedParser where
  buffer : SharedBuffer
  error : ParseResult := .noError

namespace SharedParser

def checkSize (p : SharedParser) (size : ℕ) : SharedParser :=
  if p.buffer.size < size then { p with error := .packetTooShort } else p

/-- The common shape of `_parse_int` and `remove_prefix`. -/
def checked {α : Type} (p : SharedParser) (n : ℕ) (zero : α)
    (value : SharedBuffer → Except String α) : Except String (α × SharedParser) :=
  let p := p.checkSize n
  if p.error ≠ .noError then .ok (zero, p)
  else do
    let ret ← value p.buffer
    let buffer ← p.buffer.removePrefix n
    return (ret, { p with buffer })

/-- The loop of `_parse_int`; the integer has `len` bytes, and shifting loses what is above. -/
def parseLoop (len : ℕ) (buffer : SharedBuffer) : Except String ℕ :=
  (List.range len).foldlM (fun ret i => do
    let ret := (ret <<< 8) % 256 ^ len
    return (ret + (← buffer.byteAt i).toNat) % 256 ^ len) 0

def parseInt (p : SharedParser) (len : ℕ) : Except String (ℕ × SharedParser) :=
  p.checked len 0 (parseLoop len)

def u32 (p : SharedParser) : Except String (UInt32 × SharedParser) :=
  (p.parseInt 4).map fun r => (UInt32.ofNat r.1, r.2)

def u16 (p : SharedParser) : Except String (UInt16 × SharedParser) :=
  (p.parseInt 2).map fun r => (UInt16.ofNat r.1, r.2)

def u8 (p : SharedParser) : Except String (UInt8 × SharedParser) :=
  (p.parseInt 1).map fun r => (UInt8.ofNat r.1, r.2)

def removePrefix (p : SharedParser) (n : ℕ) : Except String (Unit × SharedParser) :=
  p.checked n () fun _ => .ok ()

def answer (p : SharedParser) : Request → Except String (Option Token × SharedParser)
  | .u8 => p.u8.map fun r => (some (.u8 r.1), r.2)
  | .u16 => p.u16.map fun r => (some (.u16 r.1), r.2)
  | .u32 => p.u32.map fun r => (some (.u32 r.1), r.2)
  | .removePrefix n => (p.removePrefix n).map fun r => (none, r.2)

/-- The answers to requests made one after the other. -/
def answers (p : SharedParser) : List Request → Except String (List (Option Token) × SharedParser)
  | [] => .ok ([], p)
  | request :: requests => do
    let (answer, p) ← p.answer request
    let (rest, p) ← p.answers requests
    return (answer :: rest, p)

/-- The parser over the string the buffer shows. -/
def shown (p : SharedParser) : NetParser := ⟨p.buffer.str, p.error⟩

section Checked
variable {α β : Type} {p : SharedParser} {n : ℕ} {zero : α} {value : SharedBuffer → Except String α}

theorem checked_of_short (h : p.buffer.size < n) :
    p.checked n zero value = .ok (zero, { p with error := .packetTooShort }) := by
  simp [checked, checkSize, h]

theorem checked_of_error (h : n ≤ p.buffer.size) (herror : p.error ≠ .noError) :
    p.checked n zero value = .ok (zero, p) := by
  simp [checked, checkSize, Nat.not_lt.mpr h, herror]

theorem checked_of_enough (h : n ≤ p.buffer.size) (herror : p.error = .noError) {a : α}
    (hvalue : value p.buffer = .ok a) :
    ∃ b, p.checked n zero value = .ok (a, ⟨b, .noError⟩) ∧ b.str = p.buffer.str.drop n := by
  obtain ⟨b, hremove, hb⟩ := SharedBuffer.removePrefix_of_le h
  refine ⟨b, ?_, hb⟩
  simp [checked, checkSize, Nat.not_lt.mpr h, herror, hvalue, hremove, bind, Except.bind, pure,
    Except.pure]

theorem map_checked (f : α → β) :
    (p.checked n zero value).map (fun r => (f r.1, r.2)) =
      p.checked n (f zero) fun b => (value b).map f := by
  simp only [checked]
  split
  · rfl
  · cases value (p.checkSize n).buffer with
    | error message => rfl
    | ok a =>
      cases (p.checkSize n).buffer.removePrefix n with
      | error message => rfl
      | ok b => rfl

end Checked

section ParseLoop

/-- The loop computes the big-endian numeral; nothing is lost in its words. -/
theorem parseLoop_eq {len : ℕ} {b : SharedBuffer} (h : len ≤ b.size) :
    parseLoop len b = .ok (decode (b.str.take len)) := by
  have hprefix : ∀ k ≤ len, (List.range k).foldlM (fun ret i => do
      let ret := (ret <<< 8) % 256 ^ len
      return (ret + (← b.byteAt i).toNat) % 256 ^ len) 0 =
        (.ok (decode (b.str.take k)) : Except String ℕ) := by
    intro k hk
    induction k with
    | zero => rfl
    | succ k ih =>
      have hbyte : k < b.str.length := by
        rw [SharedBuffer.size] at h
        omega
      have hread : b.byteAt k = .ok b.str[k] := by
        rw [SharedBuffer.byteAt, List.getElem?_eq_getElem hbyte]
      have hnext := decode_take_succ hbyte
      have hfits : decode (b.str.take (k + 1)) < 256 ^ len := by
        refine (decode_lt _).trans_le (Nat.pow_le_pow_right (by decide) ?_)
        exact (List.length_take_le _ _).trans hk
      rw [List.range_succ, List.foldlM_append, ih (by omega)]
      simp only [List.foldlM_cons, List.foldlM_nil, bind, Except.bind, pure, Except.pure, hread]
      have hshift : decode (b.str.take k) <<< 8 = decode (b.str.take k) * 256 :=
        Nat.shiftLeft_eq _ 8
      rw [hshift, Nat.mod_eq_of_lt (show decode _ * 256 < _ by omega), Nat.mod_eq_of_lt (by omega),
        hnext]
  exact hprefix len (le_refl len)

end ParseLoop

section Answer
variable {p : SharedParser} {request : Request}

/-- What a request takes from a buffer that is long enough. -/
def read (request : Request) (b : SharedBuffer) : Except String (Option Token) :=
  match request with
  | .removePrefix _ => .ok none
  | request => (parseLoop request.size b).map request.token

theorem map_parseInt {α : Type} (p : SharedParser) (len : ℕ) (f : ℕ → α) (g : α → Option Token) :
    ((p.parseInt len).map fun r => (f r.1, r.2)).map (fun r => (g r.1, r.2)) =
      p.checked len (g (f 0)) fun b => (parseLoop len b).map fun n => g (f n) := by
  rw [← map_checked fun n => g (f n), ← parseInt]
  cases p.parseInt len <;> rfl

theorem answer_eq (p : SharedParser) (request : Request) :
    p.answer request = p.checked request.size request.zero (read request) := by
  cases request with
  | u8 => exact p.map_parseInt 1 UInt8.ofNat fun val => some (.u8 val)
  | u16 => exact p.map_parseInt 2 UInt16.ofNat fun val => some (.u16 val)
  | u32 => exact p.map_parseInt 4 UInt32.ofNat fun val => some (.u32 val)
  | removePrefix n => exact map_checked fun _ => none

theorem read_eq {b : SharedBuffer} (h : request.size ≤ b.size) :
    read request b = .ok (request.token (decode (b.str.take request.size))) := by
  cases request with
  | removePrefix n => rfl
  | u8 => simp only [read, parseLoop_eq h, Except.map]
  | u16 => simp only [read, parseLoop_eq h, Except.map]
  | u32 => simp only [read, parseLoop_eq h, Except.map]

theorem answer_of_short (h : p.buffer.size < request.size) :
    p.answer request = .ok (request.zero, { p with error := .packetTooShort }) := by
  rw [answer_eq, checked_of_short h]

theorem answer_of_enough (h : request.size ≤ p.buffer.size) (herror : p.error = .noError) :
    ∃ b, p.answer request =
        .ok (request.token (decode (p.buffer.str.take request.size)), ⟨b, .noError⟩) ∧
      b.str = p.buffer.str.drop request.size := by
  rw [answer_eq]
  exact checked_of_enough h herror (read_eq h)

/-- After an error the answers are zero and nothing is taken. -/
theorem answer_of_error (herror : p.error = .packetTooShort) :
    p.answer request = .ok (request.zero, p) := by
  by_cases h : p.buffer.size < request.size
  · rw [answer_of_short h, ← herror]
  · rw [answer_eq, checked_of_error (Nat.not_lt.mp h) (by simp [herror])]

theorem takes_answer (request : Request) :
    NetParser.Takes request.size request.zero
      (fun b => request.token (decode (b.take request.size))) (NetParser.answer request) := by
  have hint := NetParser.takes_parseInt
  cases request with
  | u8 => exact ((hint 1).map UInt8.ofNat).map fun val => some (Token.u8 val)
  | u16 => exact ((hint 2).map UInt16.ofNat).map fun val => some (Token.u16 val)
  | u32 => exact ((hint 4).map UInt32.ofNat).map fun val => some (Token.u32 val)
  | removePrefix n => exact (NetParser.takes_removePrefix n).map fun _ => none

/-- The two parsers give the same answers and go on from the same string. -/
theorem answer_shown (p : SharedParser) (request : Request) :
    ∃ q, p.answer request = .ok (((NetParser.answer request).run p.shown).1, q) ∧
      q.shown = ((NetParser.answer request).run p.shown).2 := by
  rw [takes_answer]
  by_cases h : p.buffer.size < request.size
  · have hlen : p.shown.buffer.length < request.size := h
    rw [if_pos hlen]
    exact ⟨_, answer_of_short h, rfl⟩
  · have hlen : ¬ p.shown.buffer.length < request.size := h
    rw [if_neg hlen]
    by_cases herror : p.error = .noError
    · have hshown : ¬ p.shown.error ≠ .noError := not_not_intro herror
      obtain ⟨b, hanswer, hb⟩ := answer_of_enough (Nat.not_lt.mp h) herror
      rw [if_neg hshown]
      refine ⟨_, hanswer, ?_⟩
      rw [shown, hb, ← herror]
      rfl
    · have hshown : p.shown.error ≠ .noError := herror
      rw [if_pos hshown, answer_eq, checked_of_error (Nat.not_lt.mp h) herror]
      exact ⟨p, rfl, rfl⟩

end Answer

section Answers
variable {p q : SharedParser} {request : Request} {requests before after : List Request}
  {tokens : List Token} {trailer : List Byte}

theorem answers_cons {a : Option Token} {r : List (Option Token)} {p₁ : SharedParser}
    (hfirst : p.answer request = .ok (a, p₁)) (hrest : p₁.answers requests = .ok (r, q)) :
    p.answers (request :: requests) = .ok (a :: r, q) := by
  simp only [answers, hfirst, bind, Except.bind, hrest]
  rfl

/-- No request throws, whatever came before it. -/
theorem answers_ok (p : SharedParser) (requests : List Request) :
    ∃ r q, p.answers requests = .ok (r, q) := by
  induction requests generalizing p with
  | nil => exact ⟨[], p, rfl⟩
  | cons request requests ih =>
    obtain ⟨p₁, hfirst, -⟩ := p.answer_shown request
    obtain ⟨rest, q, hrest⟩ := ih p₁
    exact ⟨_, q, answers_cons hfirst hrest⟩

theorem answers_append {r s : List (Option Token)} {p₁ : SharedParser}
    (hbefore : p.answers before = .ok (r, p₁)) (hafter : p₁.answers after = .ok (s, q)) :
    p.answers (before ++ after) = .ok (r ++ s, q) := by
  induction before generalizing p r with
  | nil =>
    cases hbefore
    exact hafter
  | cons request before ih =>
    obtain ⟨p₂, hfirst, -⟩ := p.answer_shown request
    obtain ⟨rest, p₃, hrest⟩ := p₂.answers_ok before
    rw [answers_cons hfirst hrest] at hbefore
    cases hbefore
    exact answers_cons hfirst (ih hrest)

theorem answers_of_error (herror : p.error = .packetTooShort) (requests : List Request) :
    p.answers requests = .ok (requests.map Request.zero, p) := by
  induction requests with
  | nil => rfl
  | cons request requests ih => exact answers_cons (answer_of_error herror) ih

/-- From the first request that is too long on, all answers are zero and the buffer stays. -/
theorem answers_of_short (h : p.buffer.size < request.size) (requests : List Request) :
    p.answers (request :: requests) =
      .ok ((request :: requests).map Request.zero, { p with error := .packetTooShort }) :=
  answers_cons (answer_of_short h) (answers_of_error rfl requests)

theorem foldl_unparse (tokens : List Token) (s : List Byte) :
    tokens.foldl Token.unparse s =
      s ++ tokens.flatMap fun token => encode token.request.size token.toNat := by
  induction tokens generalizing s with
  | nil => simp
  | cons token tokens ih =>
    rw [List.foldl_cons, ih, Token.unparse_eq, List.flatMap_cons, List.append_assoc]

theorem answers_tokens (herror : p.error = .noError)
    (hbuffer : p.buffer.str = tokens.flatMap (fun token => encode token.request.size token.toNat) ++
      trailer) :
    ∃ q, p.answers (tokens.map Token.request) = .ok (tokens.map some, q) ∧ q.error = .noError ∧
      q.buffer.str = trailer := by
  induction tokens generalizing p with
  | nil => exact ⟨p, rfl, herror, hbuffer⟩
  | cons token tokens ih =>
    rw [List.flatMap_cons, List.append_assoc] at hbuffer
    have hsize : token.request.size ≤ p.buffer.size := by
      rw [SharedBuffer.size, hbuffer, List.length_append, length_encode]
      omega
    obtain ⟨b, hfirst, hb⟩ := answer_of_enough hsize herror
    rw [hbuffer, List.take_left' (length_encode _ _), token.token_decode_encode] at hfirst
    rw [hbuffer, List.drop_left' (length_encode _ _)] at hb
    obtain ⟨q, hrest, hq⟩ := ih (p := ⟨b, .noError⟩) rfl hb
    exact ⟨q, answers_cons hfirst hrest, hq⟩

/-- Parsing inverts unparsing, and no sequence of requests reads past the end. -/
theorem requests_answered :
    (∀ (tokens : List Token) (trailer : List Byte) (b : SharedBuffer),
      b.str = tokens.foldl Token.unparse [] ++ trailer →
      ∃ q, answers { buffer := b } (tokens.map Token.request) = .ok (tokens.map some, q) ∧
        q.error = .noError ∧ q.buffer.str = trailer) ∧
    ∀ (b : SharedBuffer) (requests : List Request),
      ∃ r q, answers { buffer := b } requests = .ok (r, q) ∧
        ∀ before request after, requests = before ++ request :: after →
          ∀ s p, answers { buffer := b } before = .ok (s, p) → p.buffer.size < request.size →
            r = s ++ (request :: after).map Request.zero ∧ q.error = .packetTooShort ∧
              q.buffer = p.buffer := by
  refine ⟨?_, ?_⟩
  · intro tokens trailer b hb
    rw [foldl_unparse, List.nil_append] at hb
    exact answers_tokens rfl hb
  · intro b requests
    obtain ⟨r, q, hanswers⟩ := answers_ok { buffer := b } requests
    refine ⟨r, q, hanswers, ?_⟩
    intro before request after hrequests s p hbefore hshort
    rw [hrequests, answers_append hbefore (answers_of_short hshort after)] at hanswers
    cases hanswers
    exact ⟨rfl, rfl, rfl⟩

end Answers

end SharedParser
end Sponge
