import BftCore.Lib.Crc32

/-!
# `state/crc32_reader.go`, `crc32_writer.go`: the checksum of a state file

A state file ends with its checksum.  The writer sums every byte written through it; the
reader sums every byte read through it but the last `checksumLength`, which it holds back in
`buf` until more bytes show that they are not the end.

The hasher's `Write` is a parameter `hashWrite : H → List UInt8 → H` that takes two slices in turn as it
takes their concatenation (`WriteAppends`): the CRC-32 of `crc32.NewIEEE()` is one, and so is
the list of the bytes written, which says which bytes were summed.

* `CRC32Reader.read`: `Read(p)`, once the underlying reader has put its bytes in `p`;
* `Tracks`: the bytes summed followed by `buf` are the bytes read so far, and `buf` holds the
  last `checksumLength` of them, or all of them while fewer have come; `Tracks.read` is the step
  and `Tracks.readAll` the run;
* `crc32Reader_excludes_checksum`: however the stream is cut into reads, the reader sums all of
  it but its last `checksumLength` bytes;
* `reader_sum_eq_writer_sum`: what the reader sums of a file that the writer wrote, followed
  by a trailer of that length, is what the writer summed.
-/

namespace BftCore.State

section Hasher

variable {H : Type} (hashWrite : H → List UInt8 → H)

/-- A hasher whose `Write` of two slices in turn is the `Write` of their concatenation. -/
structure WriteAppends : Prop where
  nil : ∀ h, hashWrite h [] = h
  append : ∀ h p q, hashWrite (hashWrite h p) q = hashWrite h (p ++ q)

theorem writeAppends_update : WriteAppends Crc32.update :=
  ⟨Crc32.update_nil, Crc32.update_append⟩

/-- The hasher that keeps the bytes written to it. -/
theorem writeAppends_bytes : WriteAppends fun (h p : List UInt8) => h ++ p :=
  ⟨List.append_nil, List.append_assoc⟩

/-! ### The reader -/

/-- `CRC32Reader`: the hasher, and the bytes held back from it. -/
structure CRC32Reader (H : Type) where
  hasher : H
  buf : List UInt8
  checksumLength : Nat

/-- `NewCRC32Reader(reader, checksumLength)`, with the new hasher `hasher`. -/
def CRC32Reader.new (hasher : H) (checksumLength : Nat) : CRC32Reader H :=
  ⟨hasher, [], checksumLength⟩

/-- `c.Read(p)`, once the underlying reader has put the bytes `p` in the slice (its first
`n`). -/
def CRC32Reader.read (c : CRC32Reader H) (p : List UInt8) : CRC32Reader H :=
  let n := p.length
  if c.checksumLength ≤ n then
    -- no checksum in the data read before: `buf` is summed, and the last bytes of `p` kept
    let checksumStart := n - c.checksumLength
    { c with hasher := hashWrite (hashWrite c.hasher c.buf) (p.take checksumStart),
             buf := p.drop checksumStart }
  else
    let buf := c.buf ++ p
    if c.checksumLength < buf.length then
      -- the bytes that are certainly not checksum bytes are summed
      let checksumStart := buf.length - c.checksumLength
      { c with hasher := hashWrite c.hasher (buf.take checksumStart), buf := buf.drop checksumStart }
    else { c with buf := buf }

/-- The reads of the chunks `chunks` in turn. -/
def CRC32Reader.readAll (c : CRC32Reader H) (chunks : List (List UInt8)) : CRC32Reader H :=
  chunks.foldl (fun c p => c.read hashWrite p) c

/-- `c.Sum()` of a CRC-32 hasher: the register. -/
def CRC32Reader.sum (c : CRC32Reader UInt32) : UInt32 := c.hasher

@[simp] theorem CRC32Reader.checksumLength_read (c : CRC32Reader H) (p : List UInt8) :
    (c.read hashWrite p).checksumLength = c.checksumLength := by
  unfold CRC32Reader.read
  dsimp only
  split
  · rfl
  · split <;> rfl

@[simp] theorem CRC32Reader.readAll_nil (c : CRC32Reader H) : c.readAll hashWrite [] = c := rfl

@[simp] theorem CRC32Reader.readAll_cons (c : CRC32Reader H) (p : List UInt8)
    (chunks : List (List UInt8)) :
    c.readAll hashWrite (p :: chunks) = (c.read hashWrite p).readAll hashWrite chunks := rfl

@[simp] theorem CRC32Reader.checksumLength_readAll :
    ∀ (c : CRC32Reader H) (chunks : List (List UInt8)),
      (c.readAll hashWrite chunks).checksumLength = c.checksumLength
  | _, [] => rfl
  | c, p :: chunks => by
    rw [readAll_cons, checksumLength_readAll, checksumLength_read]

/-! ### What the reader keeps -/

/-- What a reader `c` keeps of the bytes `read` read through it from the hasher `h₀`: the bytes
it summed followed by `buf` are `read`, and `buf` is as long as `read` up to
`checksumLength`. -/
structure Tracks (h₀ : H) (c : CRC32Reader H) (read : List UInt8) : Prop where
  summed : ∃ hashed, c.hasher = hashWrite h₀ hashed ∧ hashed ++ c.buf = read
  length_buf : c.buf.length = min c.checksumLength read.length

variable {hashWrite}

theorem Tracks.new (hw : WriteAppends hashWrite) (h₀ : H) (checksumLength : Nat) :
    Tracks hashWrite h₀ (CRC32Reader.new h₀ checksumLength) [] :=
  ⟨⟨[], (hw.nil h₀).symm, rfl⟩, by simp [CRC32Reader.new]⟩

/-- The step: one read keeps what the reader keeps, in each of its three branches. -/
theorem Tracks.read (hw : WriteAppends hashWrite) {h₀ : H} {c : CRC32Reader H} {read : List UInt8}
    (h : Tracks hashWrite h₀ c read) (p : List UInt8) : Tracks hashWrite h₀ (c.read hashWrite p) (read ++ p) := by
  obtain ⟨⟨hashed, hsum, happ⟩, hlen⟩ := h
  have hread : read.length = hashed.length + c.buf.length := by
    rw [← happ, List.length_append]
  unfold CRC32Reader.read
  dsimp only
  split
  · -- a chunk of `checksumLength` bytes or more
    rename_i hn
    refine ⟨⟨hashed ++ c.buf ++ p.take (p.length - c.checksumLength), ?_, ?_⟩, ?_⟩
    · simp only [hsum, hw.append]
    · simp only [List.append_assoc, List.take_append_drop, ← happ]
    · simp only [List.length_drop, List.length_append]
      omega
  · rename_i hn
    split
    · -- a short chunk, after which `buf` is too long
      rename_i hlong
      refine ⟨⟨hashed ++ (c.buf ++ p).take ((c.buf ++ p).length - c.checksumLength), ?_, ?_⟩, ?_⟩
      · simp only [hsum, hw.append]
      · simp only [List.append_assoc, List.take_append_drop, ← happ]
      · simp only [List.length_drop, List.length_append] at hlong ⊢
        omega
    · -- a short chunk that `buf` still holds
      rename_i hshort
      refine ⟨⟨hashed, hsum, by rw [← List.append_assoc, happ]⟩, ?_⟩
      simp only [List.length_append] at hshort ⊢
      omega

/-- The run: reads of any chunks keep what the reader keeps. -/
theorem Tracks.readAll (hw : WriteAppends hashWrite) {h₀ : H} :
    ∀ (chunks : List (List UInt8)) {c : CRC32Reader H} {read : List UInt8},
      Tracks hashWrite h₀ c read → Tracks hashWrite h₀ (c.readAll hashWrite chunks) (read ++ chunks.flatten)
  | [], _, read, h => by simpa using h
  | p :: chunks, _, _, h => by
    simpa [List.append_assoc] using Tracks.readAll hw chunks (h.read hw p)

/-- A new reader keeps what it has read. -/
theorem Tracks.readAll_new (hw : WriteAppends hashWrite) (h₀ : H) (checksumLength : Nat)
    (chunks : List (List UInt8)) :
    Tracks hashWrite h₀ ((CRC32Reader.new h₀ checksumLength).readAll hashWrite chunks)
      chunks.flatten := by
  simpa using (Tracks.new hw h₀ checksumLength).readAll hw chunks

/-- The bytes a reader has summed: all those read but the last `checksumLength`. -/
theorem Tracks.hasher_eq {h₀ : H} {c : CRC32Reader H} {read : List UInt8}
    (h : Tracks hashWrite h₀ c read) :
    c.hasher = hashWrite h₀ (read.take (read.length - c.checksumLength)) := by
  obtain ⟨⟨hashed, hsum, happ⟩, hlen⟩ := h
  have hlen' : read.length - c.checksumLength = hashed.length := by
    rw [← happ, List.length_append] at hlen ⊢
    omega
  rw [hsum, hlen', ← happ, List.take_left]

/-! ### The writer -/

variable (hashWrite)

/-- `CRC32Writer`: the hasher, and the bytes the underlying writer has taken. -/
structure CRC32Writer (H : Type) where
  hasher : H
  out : List UInt8

/-- `NewCRC32Writer(writer)`, with the new hasher `hasher`. -/
def CRC32Writer.new (hasher : H) : CRC32Writer H := ⟨hasher, []⟩

/-- `c.Write(p)`: `p` goes to the underlying writer and, all of it, to the hasher. -/
def CRC32Writer.write (c : CRC32Writer H) (p : List UInt8) : CRC32Writer H :=
  ⟨hashWrite c.hasher p, c.out ++ p⟩

/-- The writes of the slices `ps` in turn. -/
def CRC32Writer.writeAll (c : CRC32Writer H) (ps : List (List UInt8)) : CRC32Writer H :=
  ps.foldl (fun c p => c.write hashWrite p) c

/-- `c.Sum()` of a CRC-32 hasher. -/
def CRC32Writer.sum (c : CRC32Writer UInt32) : UInt32 := c.hasher

variable {hashWrite}

/-- A writer has summed, and written out, the concatenation of what it was given. -/
theorem CRC32Writer.writeAll_eq (hw : WriteAppends hashWrite) :
    ∀ (c : CRC32Writer H) (ps : List (List UInt8)),
      c.writeAll hashWrite ps = ⟨hashWrite c.hasher ps.flatten, c.out ++ ps.flatten⟩
  | c, [] => by simp [writeAll, hw.nil]
  | c, p :: ps => by
    simp only [writeAll, List.foldl_cons] at *
    rw [← writeAll, writeAll_eq hw, List.flatten_cons]
    simp only [write, hw.append, List.append_assoc]

end Hasher

/-- A state file is what `State.Serialize` writes through a `CRC32Writer`, then the sum of
that writer, also through it; `readState` reads it through a `CRC32Reader` that holds back as
many bytes as the sum takes, and compares the sum it reads with the reader's.  However the
file is cut into reads, the reader's sum is the writer's. -/
theorem reader_sum_eq_writer_sum (checksumLength : Nat) (ws : List (List UInt8))
    (trailer : List UInt8) (ht : trailer.length = checksumLength) (rs : List (List UInt8))
    (hrs : rs.flatten =
      (((CRC32Writer.new 0).writeAll Crc32.update ws).write Crc32.update trailer).out) :
    ((CRC32Reader.new 0 checksumLength).readAll Crc32.update rs).sum =
      ((CRC32Writer.new 0).writeAll Crc32.update ws).sum := by
  have hr := (Tracks.readAll_new writeAppends_update 0 checksumLength rs).hasher_eq
  rw [CRC32Writer.writeAll_eq writeAppends_update] at hrs ⊢
  simp only [CRC32Writer.write, CRC32Writer.new, List.nil_append] at hrs
  have hlen : rs.flatten.length - checksumLength = ws.flatten.length := by
    rw [hrs, List.length_append, ht]
    omega
  rw [CRC32Reader.checksumLength_readAll] at hr
  rw [CRC32Reader.sum, hr]
  show Crc32.update 0 (rs.flatten.take (rs.flatten.length - checksumLength)) = _
  rw [hlen, hrs, List.take_left]
  rfl

/-- However the stream is cut into the chunks of successive reads, a new reader keeps after
every read the bytes summed followed by `buf` equal to the bytes read, with `buf` as long as
they are up to `checksumLength`; once the whole stream is read, the bytes written to its hasher
are the stream but its last `checksumLength` bytes, and `Sum()` is their CRC-32. -/
theorem crc32Reader_excludes_checksum (checksumLength : Nat) (chunks : List (List UInt8)) :
    (∀ k, Tracks (fun (h p : List UInt8) => h ++ p) []
      ((CRC32Reader.new [] checksumLength).readAll (· ++ ·) (chunks.take k)) (chunks.take k).flatten) ∧
    ((CRC32Reader.new [] checksumLength).readAll (· ++ ·) chunks).hasher =
      chunks.flatten.take (chunks.flatten.length - checksumLength) ∧
    ((CRC32Reader.new 0 checksumLength).readAll Crc32.update chunks).sum =
      Crc32.checksumIEEE (chunks.flatten.take (chunks.flatten.length - checksumLength)) := by
  refine ⟨fun k => Tracks.readAll_new writeAppends_bytes [] checksumLength _, ?_, ?_⟩
  · simpa [CRC32Reader.new] using
      (Tracks.readAll_new writeAppends_bytes [] checksumLength chunks).hasher_eq
  · simpa [CRC32Reader.sum, CRC32Reader.new, Crc32.checksumIEEE] using
      (Tracks.readAll_new writeAppends_update 0 checksumLength chunks).hasher_eq

end BftCore.State
