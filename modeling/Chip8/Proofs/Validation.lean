import Chip8.Interchange
import Chip8.Proofs.BootImage
import Chip8.Proofs.PictureText

namespace Chip8

structure Form (δ ε α : Type) where
  write : α → δ
  read : δ → Except ε α

namespace Form

variable {δ ε σ α β : Type}

def RoundTrips (form : Form δ ε α) : Prop := ∀ a, form.read (form.write a) = .ok a

def through (form : Form δ ε β) (into : α → β) (test : β → Except σ α) (refuse : σ → ε) :
    Form δ ε α where
  write a := form.write (into a)
  read d := form.read d >>= fun b ↦ (test b).mapError refuse

variable {form : Form δ ε β} {into : α → β} {test : β → Except σ α} {refuse : σ → ε}

theorem read_through (h : form.RoundTrips) (b : β) :
    (form.through into test refuse).read (form.write b) = (test b).mapError refuse := by
  show form.read (form.write b) >>= _ = _
  rw [h b]
  rfl

theorem read_write_through (h : form.RoundTrips) {a : α} (ha : test (into a) = .ok a) :
    (form.through into test refuse).read ((form.through into test refuse).write a) = .ok a := by
  refine (read_through h (into a)).trans ?_
  rw [ha]
  rfl

theorem read_through_eq_ok_iff {d : δ} {a : α} :
    (form.through into test refuse).read d = .ok a ↔ ∃ b, form.read d = .ok b ∧ test b = .ok a := by
  have hmake (b : β) : (test b).mapError refuse = .ok a ↔ test b = .ok a := by
    cases test b <;> simp only [Except.mapError, reduceCtorEq, Except.ok.injEq]
  show form.read d >>= _ = _ ↔ _
  cases form.read d with
  | error e => exact iff_of_false nofun fun ⟨_, hb, _⟩ ↦ nomatch hb
  | ok b =>
    simp only [Except.ok.injEq, exists_eq_left']
    exact hmake b

end Form

namespace Program

def ofSlice (bytes : Subarray UInt8) : Except SetupError Program := ofBytes bytes.toList

def ofArray (bytes : Array UInt8) : Except SetupError Program :=
  if h : Layout.programCapacity < bytes.size then .error (.programTooLarge bytes.size)
  else .ok ⟨bytes.toList, Nat.le_of_not_lt h⟩

def toArray (p : Program) : Array UInt8 := p.bytes.toArray

def form {δ ε : Type} (bytes : Form δ ε (List UInt8)) (refuse : SetupError → ε) :
    Form δ ε Program :=
  bytes.through (fun p ↦ p.toArray.toList) (fun bytes ↦ ofArray bytes.toArray) refuse

theorem ofArray_eq_ofBytes (bytes : Array UInt8) : ofArray bytes = ofBytes bytes.toList := by
  rw [ofArray, ofBytes]
  by_cases h : bytes.size ≤ Layout.programCapacity
  · rw [dif_neg (Nat.not_lt_of_le h), dif_pos (bytes.length_toList ▸ h)]
  · rw [dif_pos (Nat.lt_of_not_le h), dif_neg (bytes.length_toList ▸ h), bytes.length_toList]

theorem exists_ofBytes_iff {bytes : List UInt8} :
    (∃ p, ofBytes bytes = .ok p) ↔ bytes.length ≤ 3584 := by
  simp only [ofBytes_eq_ok_iff]
  exact ⟨fun ⟨p, hp⟩ ↦ hp ▸ p.length_le, fun h ↦ ⟨⟨bytes, h⟩, rfl⟩⟩

end Program

namespace Frame

/-- The parts of a picture as they are read, with sides that are words. -/
structure Parts where
  width : UInt64
  height : UInt64
  pixels : List Bool

def parts (f : Frame) : Parts := ⟨.ofNat f.width, .ofNat f.height, f.pixels.toList⟩

def Parts.toFrame (p : Parts) : Except Mismatch Frame :=
  ofParts p.width.toNat p.height.toNat p.pixels.toArray

def form {δ ε : Type} (parts : Form δ ε Parts) (refuse : Mismatch → ε) : Form δ ε Frame :=
  parts.through Frame.parts Parts.toFrame refuse

/-- The sides of the picture are words, as they are wherever a picture can be stored. -/
structure WordSides (f : Frame) : Prop where
  width_lt : f.width < UInt64.size
  height_lt : f.height < UInt64.size

variable {f : Frame}

theorem toFrame_parts (h : f.WordSides) : f.parts.toFrame = .ok f := by
  refine ofParts_eq_ok_iff.mpr ⟨?_, ?_, rfl⟩
  · exact (UInt64.toNat_ofNat_of_lt' h.width_lt).symm
  · exact (UInt64.toNat_ofNat_of_lt' h.height_lt).symm

end Frame

namespace Interchange

def datum (α : Type) [Interchange α] : Form Datum Refusal α := ⟨encode, decode⟩

instance : Interchange Frame.Parts where
  encode p := .record [
    ("width", encode p.width),
    ("height", encode p.height),
    ("pixels", encode p.pixels)]
  decode d := do
    let fs ← fields ["width", "height", "pixels"] d
    return {
      width := ← field fs "width"
      height := ← field fs "height"
      pixels := ← field fs "pixels" }

theorem decodeBelow_encodeNat {bound n : Nat} (h : n < bound) :
    decodeBelow bound (encodeNat n) = .ok n :=
  if_pos h

theorem roundTrips_bool : (datum Bool).RoundTrips := fun _ ↦ rfl

theorem roundTrips_below {α : Type} {bound : Nat} {toNat : α → Nat} {ofNat : Nat → α}
    (hlt : ∀ a, toNat a < bound) (hof : ∀ a, ofNat (toNat a) = a) :
    (@datum α (below bound toNat ofNat)).RoundTrips := by
  intro a
  show (decodeBelow bound (encodeNat (toNat a))).map ofNat = .ok a
  rw [decodeBelow_encodeNat (hlt a)]
  exact congrArg Except.ok (hof a)

theorem roundTrips_byte : (datum UInt8).RoundTrips :=
  roundTrips_below UInt8.toNat_lt_size fun _ ↦ UInt8.ofNat_toNat

theorem roundTrips_word : (datum UInt64).RoundTrips :=
  roundTrips_below UInt64.toNat_lt_size fun _ ↦ UInt64.ofNat_toNat

theorem roundTrips_list {α : Type} [Interchange α] (h : (datum α).RoundTrips) :
    (datum (List α)).RoundTrips := by
  intro as
  show (as.map encode).mapM decode = .ok as
  induction as with
  | nil => rfl
  | cons a as ih =>
    have ha : decode (encode a) = Except.ok a := h a
    rw [List.map_cons, List.mapM_cons, ha, ih]
    rfl

theorem roundTrips_parts : (datum Frame.Parts).RoundTrips := by
  intro p
  have hwidth : decode (encode p.width) = .ok p.width := roundTrips_word p.width
  have hheight : decode (encode p.height) = .ok p.height := roundTrips_word p.height
  have hpixels : decode (encode p.pixels) = .ok p.pixels := roundTrips_list roundTrips_bool p.pixels
  show (do
    let width : UInt64 ← decode (encode p.width)
    let height : UInt64 ← decode (encode p.height)
    let pixels : List Bool ← decode (encode p.pixels)
    return (⟨width, height, pixels⟩ : Frame.Parts)) = .ok p
  rw [hwidth, hheight, hpixels]
  rfl

theorem encode_frame {f : Frame} (h : f.WordSides) : encode f = encode f.parts := by
  show Datum.record [("width", encodeNat f.width), ("height", encodeNat f.height),
    ("pixels", encode f.pixels.toList)] =
    Datum.record [("width", encodeNat (UInt64.ofNat f.width).toNat),
      ("height", encodeNat (UInt64.ofNat f.height).toNat), ("pixels", encode f.pixels.toList)]
  rw [UInt64.toNat_ofNat_of_lt' h.width_lt, UInt64.toNat_ofNat_of_lt' h.height_lt]

theorem decode_program (d : Datum) :
    decode d = (Program.form (datum (List UInt8)) .program).read d := by
  show (decode d >>= fun bytes ↦ (Program.ofBytes bytes).mapError .program) =
    decode d >>= fun bytes : List UInt8 ↦ (Program.ofArray bytes.toArray).mapError .program
  simp only [Program.ofArray_eq_ofBytes]

theorem decode_frame (d : Datum) : decode d = (Frame.form (datum Frame.Parts) .frame).read d := by
  show _ = decode d >>= fun parts ↦ (Frame.Parts.toFrame parts).mapError .frame
  -- Both read the same fields, and differ in where the test is bracketed.
  simp only [decode, bind_assoc, pure_bind]
  rfl

end Interchange

/-- Programs and pictures of a format are tested. Written ones are read back, bytes and parts are
judged as the constructors judge them, and nothing is read that was not made from readable bytes or
parts. -/
structure Guarded {δ ε : Type} (bytes : Form δ ε (List UInt8)) (parts : Form δ ε Frame.Parts)
    (programs : Form δ ε Program) (frames : Form δ ε Frame)
    (refuseProgram : SetupError → ε) (refuseFrame : Frame.Mismatch → ε) : Prop where
  program_survives : programs.RoundTrips
  frame_survives {f : Frame} : f.WordSides → frames.read (frames.write f) = .ok f
  program_tested (rom : List UInt8) :
    programs.read (bytes.write rom) = (Program.ofBytes rom).mapError refuseProgram
  frame_tested (width height : UInt64) (pixels : List Bool) :
    frames.read (parts.write ⟨width, height, pixels⟩) =
      (Frame.ofParts width.toNat height.toNat pixels.toArray).mapError refuseFrame
  program_unforged {d : δ} {p : Program} :
    programs.read d = .ok p ↔ bytes.read d = .ok p.bytes
  frame_unforged {d : δ} {f : Frame} : frames.read d = .ok f ↔
    ∃ width height pixels, parts.read d = .ok ⟨width, height, pixels⟩ ∧
      Frame.ofParts width.toNat height.toNat pixels.toArray = .ok f

section Formats

variable {δ ε : Type} {bytes : Form δ ε (List UInt8)} {parts : Form δ ε Frame.Parts}
  {refuseProgram : SetupError → ε} {refuseFrame : Frame.Mismatch → ε}

theorem Guarded.of_roundTrips (hbytes : bytes.RoundTrips) (hparts : parts.RoundTrips) :
    Guarded bytes parts (Program.form bytes refuseProgram) (Frame.form parts refuseFrame)
      refuseProgram refuseFrame where
  program_survives p := by
    refine Form.read_write_through hbytes ?_
    rw [Program.ofArray_eq_ofBytes, Program.ofBytes_eq_ok_iff]
    rfl
  frame_survives h := Form.read_write_through hparts (Frame.toFrame_parts h)
  program_tested rom := by
    rw [Program.form, Form.read_through hbytes, Program.ofArray_eq_ofBytes]
  frame_tested width height pixels := Form.read_through hparts ⟨width, height, pixels⟩
  program_unforged := by
    intro d p
    rw [Program.form, Form.read_through_eq_ok_iff]
    simp only [Program.ofArray_eq_ofBytes, Program.ofBytes_eq_ok_iff, exists_eq_right']
  frame_unforged := by
    intro d f
    rw [Frame.form, Form.read_through_eq_ok_iff]
    exact ⟨fun ⟨⟨_, _, _⟩, h⟩ ↦ ⟨_, _, _, h⟩, fun ⟨_, _, _, h⟩ ↦ ⟨_, h⟩⟩

end Formats

theorem Guarded.through_datum : Guarded (Interchange.datum (List UInt8))
    (Interchange.datum Frame.Parts) (Program.form (Interchange.datum (List UInt8)) .program)
    (Frame.form (Interchange.datum Frame.Parts) .frame) .program .frame :=
  .of_roundTrips (Interchange.roundTrips_list Interchange.roundTrips_byte)
    Interchange.roundTrips_parts

theorem Guarded.datum : Guarded (Interchange.datum (List UInt8)) (Interchange.datum Frame.Parts)
    (Interchange.datum Program) (Interchange.datum Frame) .program .frame where
  program_survives p :=
    (Interchange.decode_program _).trans (Guarded.through_datum.program_survives p)
  frame_survives {f} hf := by
    have hwrite : (Interchange.datum Frame).write f =
        (Frame.form (Interchange.datum Frame.Parts) Refusal.frame).write f :=
      Interchange.encode_frame hf
    rw [hwrite]
    exact (Interchange.decode_frame _).trans (Guarded.through_datum.frame_survives hf)
  program_tested rom :=
    (Interchange.decode_program _).trans (Guarded.through_datum.program_tested rom)
  frame_tested width height pixels :=
    (Interchange.decode_frame _).trans (Guarded.through_datum.frame_tested width height pixels)
  program_unforged {d p} := by
    rw [← Guarded.through_datum.program_unforged, ← Interchange.decode_program]
    rfl
  frame_unforged {d f} := by
    rw [← Guarded.through_datum.frame_unforged, ← Interchange.decode_frame]
    rfl

/-- All ways to a program from bytes judge them alike: those that fit are taken, and given back. -/
structure Program.WaysAgree (rom : List UInt8) : Prop where
  taken : (∃ p, ofBytes rom = .ok p) ↔ rom.length ≤ 3584
  refused {e : SetupError} : ofBytes rom = .error e → e = .programTooLarge rom.length
  slice (s : Subarray UInt8) : s.toList = rom → ofSlice s = ofBytes rom
  array : ofArray rom.toArray = ofBytes rom
  givenBack {p : Program} : ofBytes rom = .ok p → p.toArray = rom.toArray

theorem Program.waysAgree (rom : List UInt8) : WaysAgree rom where
  taken := exists_ofBytes_iff
  refused h := (ofBytes_eq_error_iff.mp h).2
  slice s hs := by rw [ofSlice, hs]
  array := ofArray_eq_ofBytes rom.toArray
  givenBack h := congrArg List.toArray (ofBytes_eq_ok_iff.mp h)

/-- If the format of bytes and of parts reads back what it writes, so do programs and pictures, and
they are tested when they are read. The forms in which values are handed to other programs belong to
such a format. From bytes there is one answer, whichever way is taken. -/
theorem validated_values_survive_unforged :
    (∀ (δ ε : Type) (bytes : Form δ ε (List UInt8)) (parts : Form δ ε Frame.Parts)
      (refuseProgram : SetupError → ε) (refuseFrame : Frame.Mismatch → ε),
      bytes.RoundTrips → parts.RoundTrips →
        Guarded bytes parts (Program.form bytes refuseProgram) (Frame.form parts refuseFrame)
          refuseProgram refuseFrame) ∧
      Guarded (Interchange.datum (List UInt8)) (Interchange.datum Frame.Parts)
        (Interchange.datum Program) (Interchange.datum Frame) .program .frame ∧
      ∀ rom, Program.WaysAgree rom :=
  ⟨fun _ _ _ _ _ _ hbytes hparts ↦ .of_roundTrips hbytes hparts, .datum, Program.waysAgree⟩

/-- Two bytes are read as a program and two pixels as a picture. A byte too many and sides whose
product is zero as a word are refused with what was found. -/
theorem two_bytes_read_and_misfits_refused :
    (Interchange.datum (List UInt8)).RoundTrips ∧ (Interchange.datum Frame.Parts).RoundTrips ∧
      (∃ p, (Program.form (Interchange.datum (List UInt8)) Refusal.program).read
          (.list [.number 0x12 0, .number 0x00 0]) = .ok p ∧ p.bytes = [0x12, 0x00]) ∧
      (Program.form (Interchange.datum (List UInt8)) Refusal.program).read
          (Interchange.encode (List.replicate 3585 (0 : UInt8))) =
        .error (.program (.programTooLarge 3585)) ∧
      (∃ f, (Frame.form (Interchange.datum Frame.Parts) Refusal.frame).read
          (Interchange.encode (⟨2, 1, [true, false]⟩ : Frame.Parts)) = .ok f ∧
        f.text = "#.\n" ∧
        (Frame.form (Interchange.datum Frame.Parts) Refusal.frame).read
          ((Frame.form (Interchange.datum Frame.Parts) Refusal.frame).write f) = .ok f) ∧
      (Frame.form (Interchange.datum Frame.Parts) Refusal.frame).read
          (Interchange.encode (⟨4294967296, 4294967296, []⟩ : Frame.Parts)) =
        .error (.frame ⟨4294967296, 4294967296, 0⟩) := by
  have hbytes := Interchange.roundTrips_list Interchange.roundTrips_byte
  have hparts := Interchange.roundTrips_parts
  have hguarded :=
    validated_values_survive_unforged.1 Datum Refusal _ _ .program .frame hbytes hparts
  refine ⟨hbytes, hparts, ?_, ?_, ?_, ?_⟩
  · obtain ⟨p, hp⟩ := (validated_values_survive_unforged.2.2 [0x12, 0x00]).taken.mpr (by decide)
    refine ⟨p, (hguarded.program_tested [0x12, 0x00]).trans ?_, Program.ofBytes_eq_ok_iff.mp hp⟩
    rw [hp]
    rfl
  · refine (hguarded.program_tested _).trans ?_
    rw [Program.ofBytes_eq_error_iff.mpr ⟨by rw [List.length_replicate]; decide, rfl⟩,
      List.length_replicate]
    rfl
  · refine ⟨⟨2, 1, #[true, false], by decide, by decide, rfl⟩, ?_, by decide +kernel, ?_⟩
    · exact hguarded.frame_tested 2 1 [true, false]
    · exact hguarded.frame_survives ⟨by decide, by decide⟩
  · refine (hguarded.frame_tested _ _ _).trans ?_
    rw [Frame.ofParts_of_not (by decide)]
    rfl

end Chip8
