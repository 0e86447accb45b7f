import SevenOS.Heap.RawList

/-! # Strings in memory

`String` with its characters in the bytes of its buffer. The length of a C string is
counted up to its NUL, a copy is a new buffer with a NUL of its own, and a `String`
in a list is a pointer and a length.
-/

namespace SevenOS.Raw

open Prog

/-- `String` -/
structure KString where
  data : Nat
  len : UInt32
  deriving DecidableEq

namespace KString

variable (area : HeapArea)

/-- `while (s[len]) len++;`, where `len` comes round after 2^32 rounds. -/
def scanLen (m : Memory) (s : Nat) : Nat → UInt32 → Option UInt32
  | 0, _ => none
  | fuel + 1, len => if m.byte (s + len.toNat) = 0 then some len else scanLen m s fuel (len + 1)

/-- `new char[n + 1]`, with `n` characters copied to it and a NUL. -/
def newCopy (src n : Nat) : HeapProg Nat := do
  let data ← newBytes area (n + 1)
  writes fun m => (m.copyCells 1 src data n).store8 (data + n) 0
  return data

/-- `String(const char* s)` -/
def ofCStr (s : Nat) : HeapProg KString := do
  let r ← get
  match scanLen r.heap.memory s (2 ^ 32) 0 with
  | none => diverge
  | some len => do
      let data ← newCopy area s len.toNat
      return ⟨data, len⟩

/-! ## Strings as elements -/

/-- `sizeof(String)`: a pointer and a length. -/
def stringType : ElemType := ⟨8, by decide⟩

def toCell (s : KString) : stringType.Value := fun i =>
  (Bytes.bytesOf32 (UInt32.ofNat s.data) ++ Bytes.bytesOf32 s.len).getD i.val 0

def ofCell (v : stringType.Value) : KString := ⟨(Bytes.get32 v 0).toNat, Bytes.get32 v 4⟩

theorem get32_words (x y : UInt32) :
    let v : Bytes 8 := fun i => (Bytes.bytesOf32 x ++ Bytes.bytesOf32 y).getD i.val 0
    Bytes.get32 v 0 = x ∧ Bytes.get32 v 4 = y := by
  simp [Bytes.get32, Bytes.at_, Bytes.bytesOf32]

theorem ofCell_toCell {s : KString} (h : s.data < 2 ^ 32) : ofCell s.toCell = s := by
  have hdata : Bytes.get32 s.toCell 0 = UInt32.ofNat s.data := (get32_words _ s.len).1
  have hlen : Bytes.get32 s.toCell 4 = s.len := (get32_words (UInt32.ofNat s.data) _).2
  rw [ofCell, hdata, hlen, UInt32.toNat_ofNat', Nat.mod_eq_of_lt h]

/-! ## What a string holds -/

def buffer (s : KString) : Nat × Nat := (s.data, s.len.toNat + 1)

/-- The string consists of these characters, and a NUL is behind them. -/
structure Holds (m : Memory) (s : KString) (chars : List UInt8) : Prop where
  len : s.len.toNat = chars.length
  bytes : m.bytes s.data (chars.length + 1) = chars ++ [0]

variable {area} {own : List (Nat × Nat)} {r r' : HeapRun} {b : Nat × Nat} {chars : List UInt8}
  {src n : Nat}

/-- Characters stay when the bytes of a buffer around them stay. -/
theorem bytes_eq (hsame : SameBytes own r r') (hb : b ∈ own) (hlow : b.1 ≤ src)
    (hhigh : src + n ≤ b.1 + b.2) : r'.heap.memory.bytes src n = r.heap.memory.bytes src n :=
  Memory.bytes_congr fun _ _ _ => hsame _ ⟨b, hb, by omega, by omega⟩

theorem Holds.same {s : KString} (h : s.Holds r.heap.memory chars) (hsame : SameBytes own r r')
    (hb : b ∈ own) (hdata : b.1 = s.data) (hroom : chars.length < b.2) :
    s.Holds r'.heap.memory chars := by
  refine ⟨h.len, ?_⟩
  rw [bytes_eq hsame hb (by omega) (by omega)]
  exact h.bytes

/-! ## Rules -/

theorem newCopy_rule (h : Buffers area own r) (hb : b ∈ own) (hlow : b.1 ≤ src)
    (hhigh : src + n ≤ b.1 + b.2) (hn : n ≤ 65536) :
    wp (newCopy area src n) (fun data r' => Buffers area ((data, n + 1) :: own) r' ∧
      SameBytes own r r' ∧
      r'.heap.memory.bytes data (n + 1) = r.heap.memory.bytes src n ++ [0]) (fun _ => True)
      (fun _ => False) r := by
  apply wp_call (newBytes_buffers h (by omega)) _ (fun _ h => h) fun _ h => h
  intro data r₁ hnew
  obtain ⟨-, hbuf, hsame⟩ := hnew
  have happart := hbuf.head_apart hb
  simp only at happart
  obtain ⟨hbuf', hsame'⟩ := hbuf.write
    (f := fun m => (m.copyCells 1 src data n).store8 (data + n) 0) fun a ha => by
      simp only at ha
      exact (Memory.load8_store8_apart _ 0 (by omega)).trans (Memory.byte_copyCells (by omega))
  refine ⟨hbuf', hsame.trans hsame', ?_⟩
  change ((Memory.copyCells 1 r₁.heap.memory src data n).store8 (data + n) 0).bytes data (n + 1) = _
  rw [Memory.bytes_store8, Memory.bytes_copyCells (by omega), bytes_eq hsame hb hlow hhigh]

theorem scanLen_eq {m : Memory} (hbytes : m.bytes src (chars.length + 1) = chars ++ [0])
    (hnul : 0 ∉ chars) (hlength : chars.length < 2 ^ 32) {fuel i : Nat} (hi : i ≤ chars.length)
    (hfuel : chars.length - i < fuel) :
    scanLen m src fuel (UInt32.ofNat i) = some (UInt32.ofNat chars.length) := by
  induction fuel generalizing i with
  | zero => exact absurd hfuel (Nat.not_lt_zero _)
  | succ fuel ih =>
      have hnat : (UInt32.ofNat i).toNat = i := by
        rw [UInt32.toNat_ofNat', Nat.mod_eq_of_lt (by omega)]
      have hbyte := Memory.getElem?_bytes m src (Nat.lt_succ_of_le hi)
      rw [hbytes] at hbyte
      rw [scanLen, hnat]
      rcases Nat.lt_or_eq_of_le hi with hlt | rfl
      · rw [List.getElem?_append_left hlt] at hbyte
        have hne : m.byte (src + i) ≠ 0 := fun h => hnul (h ▸ List.mem_of_getElem? hbyte)
        have hsucc : UInt32.ofNat i + 1 = UInt32.ofNat (i + 1) := (UInt32.ofNat_add i 1).symm
        rw [if_neg hne, hsucc]
        exact ih hlt (by omega)
      · rw [List.getElem?_append_right (Nat.le_refl _), Nat.sub_self] at hbyte
        have hzero : 0 = m.byte (src + chars.length) := Option.some.inj hbyte
        rw [if_pos hzero.symm]

/-- A new string has the characters of the C string in a buffer of its own. -/
theorem ofCStr_rule (h : Buffers area own r) (hb : b ∈ own) (hlow : b.1 ≤ src)
    (hhigh : src + chars.length < b.1 + b.2)
    (hbytes : r.heap.memory.bytes src (chars.length + 1) = chars ++ [0]) (hnul : 0 ∉ chars) :
    wp (ofCStr area src) (fun s r' => s.Holds r'.heap.memory chars ∧
      Buffers area (s.buffer :: own) r' ∧ SameBytes own r r') (fun _ => True) (fun _ => False)
      r := by
  have hroom := (h.bounds hb).2.2
  have hscan : scanLen r.heap.memory src (2 ^ 32) 0 = some (UInt32.ofNat chars.length) :=
    scanLen_eq hbytes hnul (by omega) (Nat.zero_le _) (by omega)
  have hlen : (UInt32.ofNat chars.length).toNat = chars.length := by
    rw [UInt32.toNat_ofNat', Nat.mod_eq_of_lt (by omega)]
  rw [ofCStr, wp_bind, wp_get, hscan]
  simp only [hlen]
  apply wp_call (newCopy_rule h hb hlow (by omega) (by omega)) _ (fun _ h => h) fun _ h => h
  intro data r' hcopy
  obtain ⟨hbuf, hsame, hcopied⟩ := hcopy
  refine ⟨⟨hlen, ?_⟩, ?_, hsame⟩
  · have hfront := congrArg (List.take chars.length) hbytes
    rw [Memory.bytes_succ, List.take_left' (Memory.length_bytes _ _ _), List.take_left] at hfront
    rw [hcopied, hfront]
  · rw [buffer, hlen]
    exact hbuf

end KString

end SevenOS.Raw
