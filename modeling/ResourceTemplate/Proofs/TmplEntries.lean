import ResourceTemplate.Proofs.References
import ResourceTemplate.Tmpl.Load

/-! The entries that stand in the bytes of a `TMPL` resource. They may be read from any place: the
same bytes further on are the same entries at later offsets. -/
namespace ResourceTemplate.Tmpl

/-- The bytes of a label, as many as one byte can count. -/
structure Label where
  bytes : Bytes
  short : bytes.length < 256

namespace Label

def text (label : Label) : String := String.ofList (Charset.macRoman.decode label.bytes)

def pascal (label : Label) : Bytes := UInt8.ofNat label.bytes.length :: label.bytes

def entry (label : Label) (code : String) : Bytes := label.pascal ++ Utf8.encode code.toList

end Label

/-- The bytes from an offset on are these entries, the last of which ends where they end. -/
inductive Stand : Nat → Bytes → List Entry → Prop where
  | done (offset : Nat) : Stand offset [] []
  | entry {offset : Nat} {rest : Bytes} {entries : List Entry} (label : Label) {code : Bytes}
      (four : code.length = 4) (follow : Stand (offset + label.bytes.length + 5) rest entries) :
      Stand offset (label.pascal ++ (code ++ rest))
        (⟨offset, label.text, String.ofList (Utf8.decodeLossy code)⟩ :: entries)

section Reading

variable {offset : Nat} {bytes : Bytes}

theorem take_eq_ok {n : Nat} {taken : Bytes} {rest : Input} :
    take n ⟨offset, bytes⟩ = .ok (taken, rest) ↔
      bytes = taken ++ rest.bytes ∧ taken.length = n ∧ rest.offset = offset + n := by
  have parts := @Input.take?_eq_some_iff n ⟨offset, bytes⟩ rest taken
  rw [take, ← parts]
  cases Input.take? n ⟨offset, bytes⟩ <;> simp

theorem read_eq_ok {entry : Entry} {rest : Input} :
    Entry.read ⟨offset, bytes⟩ = .ok (entry, rest) ↔
      ∃ (label : Label) (code : Bytes), code.length = 4 ∧
        bytes = label.pascal ++ (code ++ rest.bytes) ∧
        entry = ⟨offset, label.text, String.ofList (Utf8.decodeLossy code)⟩ ∧
        rest.offset = offset + label.bytes.length + 5 := by
  simp only [Entry.read, bind_eq_ok, Prod.exists, pure_eq_ok, Prod.mk.injEq]
  constructor
  · rintro ⟨size, ⟨_, _⟩, first, label, ⟨_, _⟩, second, code, ⟨_, _⟩, third, rfl, rfl⟩
    obtain ⟨rfl, one, rfl⟩ := take_eq_ok.mp first
    obtain ⟨rfl, length, rfl⟩ := take_eq_ok.mp second
    obtain ⟨rfl, four, rfl⟩ := take_eq_ok.mp third
    obtain ⟨count, rfl⟩ := List.length_eq_one_iff.mp one
    have counted : label.length = count.toNat := by simpa [Bytes.toNat] using length
    refine ⟨⟨label, counted ▸ count.toNat_lt⟩, code, four, ?_, rfl, ?_⟩
    · simp [Label.pascal, counted]
    · simp only
      omega
  · rintro ⟨label, code, four, rfl, rfl, place⟩
    have counted : Bytes.toNat [UInt8.ofNat label.bytes.length] = label.bytes.length := by
      simp [Bytes.toNat, Nat.mod_eq_of_lt label.short]
    refine ⟨[UInt8.ofNat label.bytes.length], ⟨offset + 1, label.bytes ++ (code ++ rest.bytes)⟩,
      take_eq_ok.mpr ⟨rfl, rfl, rfl⟩, label.bytes,
      ⟨offset + 1 + label.bytes.length, code ++ rest.bytes⟩,
      take_eq_ok.mpr ⟨rfl, counted.symm, by rw [counted]⟩, code, rest,
      take_eq_ok.mpr ⟨rfl, four, ?_⟩, rfl, rfl⟩
    omega

theorem scan_of_stand {entries : List Entry} (stand : Stand offset bytes entries) :
    Entry.scan ⟨offset, bytes⟩ = (entries, none) := by
  induction stand with
  | done => simp [Entry.scan, Input.atEnd]
  | @entry offset rest entries label code four _ ih =>
    rw [Entry.scan, if_neg (by simp [Input.atEnd, Label.pascal])]
    have found : Entry.read ⟨offset, label.pascal ++ (code ++ rest)⟩ =
        .ok (⟨offset, label.text, String.ofList (Utf8.decodeLossy code)⟩,
          ⟨offset + label.bytes.length + 5, rest⟩) :=
      read_eq_ok.mpr ⟨label, code, four, rfl, rfl, rfl⟩
    split
    · next failed =>
      rw [found] at failed
      contradiction
    · next read =>
      rw [found] at read
      cases read
      rw [ih]

/-- What is found without a fault is all that the bytes hold. -/
theorem stand_of_scan {entries : List Entry}
    (scanned : Entry.scan ⟨offset, bytes⟩ = (entries, none)) : Stand offset bytes entries := by
  generalize same : (⟨offset, bytes⟩ : Input) = input at scanned
  fun_induction Entry.scan input generalizing offset bytes entries with
  | case1 input ended =>
    subst same
    cases scanned
    obtain rfl : bytes = [] := by simpa [Input.atEnd] using ended
    exact .done offset
  | case2 input more error failed => nomatch scanned
  | case3 input more entry rest found others fault scan ih =>
    subst same
    cases scanned
    obtain ⟨label, code, four, rfl, rfl, place⟩ := read_eq_ok.mp found
    exact .entry label four (ih (by rw [← place]) scan)

end Reading

section Places

variable {offset : Nat} {bytes : Bytes} {entries : List Entry}

theorem Stand.append {more : Bytes} {others : List Entry} (first : Stand offset bytes entries)
    (second : Stand (offset + bytes.length) more others) :
    Stand offset (bytes ++ more) (entries ++ others) := by
  induction first with
  | done offset => simpa using second
  | @entry offset rest entries label code four follow ih =>
    simp only [List.append_assoc, List.cons_append]
    refine .entry label four (ih ?_)
    have length : offset + (label.pascal ++ (code ++ rest)).length =
        offset + label.bytes.length + 5 + rest.length := by
      simp only [List.length_append, Label.pascal, List.length_cons, four]
      omega
    rwa [length] at second

def Entry.moved (shift : Nat) (entry : Entry) : Entry :=
  { entry with offset := shift + entry.offset }

theorem Stand.moved (shift : Nat) (stand : Stand offset bytes entries) :
    Stand (shift + offset) bytes (entries.map (Entry.moved shift)) := by
  induction stand with
  | done offset => exact .done (shift + offset)
  | entry label four _ ih =>
    refine .entry label four ?_
    simpa [Nat.add_assoc] using ih

end Places

section Codes

theorem encodeChar_plain {c : Char} (plain : c.toNat < 0x80) :
    Utf8.encodeChar c = [UInt8.ofNat c.toNat] := by
  simp [Utf8.encodeChar, plain]

theorem decodeLossy_encode_plain {text : List Char} (plain : ∀ c ∈ text, c.toNat < 0x80) :
    Utf8.decodeLossy (Utf8.encode text) = text := by
  induction text with
  | nil => simp [Utf8.encode, Utf8.decodeLossy, Utf8.pieces]
  | cons c text ih =>
    obtain ⟨first, others⟩ := List.forall_mem_cons.mp plain
    have kept : (UInt8.ofNat c.toNat).toNat = c.toNat := by
      rw [UInt8.toNat_ofNat']
      omega
    have lead : Utf8.lead? (UInt8.ofNat c.toNat) = some ⟨0, c.toNat, 0, 0⟩ := by
      simp [Utf8.lead?, kept, first]
    have follow := ih others
    simp only [Utf8.decodeLossy, Utf8.encode] at follow
    simp [Utf8.decodeLossy, Utf8.encode, encodeChar_plain first, Utf8.pieces, lead,
      Utf8.continuation, follow]

theorem length_encode_plain {text : List Char} (plain : ∀ c ∈ text, c.toNat < 0x80) :
    (Utf8.encode text).length = text.length := by
  induction text with
  | nil => rfl
  | cons c text ih =>
    obtain ⟨first, others⟩ := List.forall_mem_cons.mp plain
    simpa [Utf8.encode, encodeChar_plain first] using ih others

theorem table_plain : ∀ code ∈ table.map Prod.fst,
    code.toList.length = 4 ∧ ∀ c ∈ code.toList, c.toNat < 0x80 := by
  have plain : (table.map Prod.fst).all
      (fun code => code.toList.length == 4 && code.toList.all (·.toNat < 0x80)) = true := by
    decide
  intro code known
  obtain ⟨four, ascii⟩ := Bool.and_eq_true_iff.mp (List.all_eq_true.mp plain code known)
  exact ⟨eq_of_beq four, fun c member => of_decide_eq_true (List.all_eq_true.mp ascii c member)⟩

theorem Label.stand_entry (label : Label) {code : String} (known : code ∈ table.map Prod.fst)
    (offset : Nat) : Stand offset (label.entry code) [⟨offset, label.text, code⟩] := by
  obtain ⟨four, plain⟩ := table_plain code known
  have stand : Stand offset (label.pascal ++ (Utf8.encode code.toList ++ [])) _ :=
    .entry label (by rw [length_encode_plain plain, four]) (.done _)
  simpa [Label.entry, decodeLossy_encode_plain plain] using stand

end Codes
end ResourceTemplate.Tmpl
