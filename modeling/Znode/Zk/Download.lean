import Mathlib
import Znode.Lib.Blocks
import Znode.Lib.Text
import Znode.Core.Hmac

/-!
# Reading the parameter files

The files of parameters are read in blocks of 32 MiB to compute their checksum, and are downloaded in blocks of 256 KiB,
with an HTTP request that is written out by hand.

* `checksumLoop` : the loop of `get_file_sha256_checksum`;
* `checksumLoop_eq_hash` : the blocks do not matter;
* `writeResponse` : the loop of `download_param_file`, which looks for the end of the headers in each block by itself;
* `body` : what follows the headers of a response;
* `response_body_iff` : the file gets the body exactly when the end of the headers does not lie across two blocks.
-/

namespace Znode.Zk
open Znode.Lib Znode.Core

/-! ## Checksums -/

section Checksum
variable {evp : Evp}

/-- `Bytes buffer(32_MiB, 0)`. -/
def kChecksumBuffer : Nat := 32 * 1024 * 1024

/-- The loop over the reads, of which only the last one can be short, or empty. -/
def checksumLoop (d : MessageDigest evp) : List Bytes → MessageDigest evp
  | [] => d
  | bytes :: reads => checksumLoop (if bytes.length ≠ 0 then d.update bytes else d) reads

/-- The reads up to the one that finds the end of the file: it returns less than was asked for. -/
def fileReads (content : Bytes) : List Bytes :=
  if content.length % kChecksumBuffer = 0 then blocks kChecksumBuffer content ++ [[]]
  else blocks kChecksumBuffer content

theorem ingested_checksumLoop {d : MessageDigest evp} {data : Bytes} (h : d.Ingested data) (reads : List Bytes) :
    (checksumLoop d reads).Ingested (data ++ reads.flatten) := by
  induction reads generalizing d data with
  | nil => rwa [List.flatten_nil, List.append_nil]
  | cons bytes reads ih =>
      rw [checksumLoop, List.flatten_cons, ← List.append_assoc]
      split_ifs with hempty
      · exact ih (h.update bytes)
      · rw [not_not, List.length_eq_zero_iff] at hempty
        rw [hempty, List.append_nil]
        exact ih h

theorem flatten_fileReads (content : Bytes) : (fileReads content).flatten = content := by
  unfold fileReads
  split_ifs
  · rw [List.flatten_append, flatten_blocks (by decide)]
    simp
  · exact flatten_blocks (by decide) content

/-- **The checksum of a file** is the hash of what is in it, whatever its length. -/
theorem checksumLoop_eq_hash (fresh : MessageDigest evp) (content : Bytes) :
    (checksumLoop fresh.init (fileReads content)).finalize.1 = evp.hash content := by
  have h := ingested_checksumLoop (MessageDigest.ingested_init fresh) (fileReads content)
  rw [List.nil_append, flatten_fileReads] at h
  exact h.finalize

end Checksum

/-! ## Responses -/

/-- `constexpr size_t buffer_size{256_KiB}`. -/
def kResponseBuffer : Nat := 256 * 1024

def kHeadersEnd : Bytes := ascii "\r\n\r\n"

/-- What the loop of `download_param_file` writes to the file. -/
def writeResponse : Bool → List Bytes → Bytes
  | _, [] => []
  | true, data :: reads => data ++ writeResponse true reads
  | false, data :: reads =>
    match firstAt kHeadersEnd data with
    | some pos => data.drop (pos + 4) ++ writeResponse true reads
    | none => writeResponse false reads

/-- The bytes of the file, for a response that is read block by block. -/
def written (response : Bytes) : Bytes := writeResponse false (blocks kResponseBuffer response)

def body (response : Bytes) : Bytes :=
  match firstAt kHeadersEnd response with
  | some pos => response.drop (pos + 4)
  | none => []

/-- The headers end within one block, if they end. -/
def HeadersInBlock (response : Bytes) : Prop :=
  ∀ pos ∈ firstAt kHeadersEnd response, pos % kResponseBuffer + 4 ≤ kResponseBuffer

instance (response : Bytes) : Decidable (HeadersInBlock response) :=
  inferInstanceAs (Decidable (∀ pos ∈ firstAt kHeadersEnd response, _))

theorem kResponseBuffer_pos : 0 < kResponseBuffer := by decide

theorem length_kHeadersEnd : kHeadersEnd.length = 4 := rfl

theorem writeResponse_true (reads : List Bytes) : writeResponse true reads = reads.flatten := by
  induction reads with
  | nil => rfl
  | cons data reads ih => rw [writeResponse, ih, List.flatten_cons]

@[simp] theorem written_nil : written [] = [] := by
  rw [written, blocks_nil, writeResponse]

variable {response : Bytes} {pos : Nat}

theorem body_of_some (h : firstAt kHeadersEnd response = some pos) : body response = response.drop (pos + 4) := by
  rw [body, h]

theorem headersInBlock_iff (h : firstAt kHeadersEnd response = some pos) :
    HeadersInBlock response ↔ pos % kResponseBuffer + 4 ≤ kResponseBuffer := by
  rw [HeadersInBlock, h]
  simp

theorem written_of_some (h : firstAt kHeadersEnd (response.take kResponseBuffer) = some pos) :
    written response = response.drop (pos + 4) := by
  have hpos := (firstAt_of_take h).2
  have hlength := le_length_of_firstAt h
  rw [length_kHeadersEnd] at hpos hlength
  have hne : response ≠ [] := by
    rintro rfl
    simp at hlength
  rw [List.length_take] at hlength
  simp only [written, blocks_of_ne_nil kResponseBuffer_pos hne, writeResponse, h, writeResponse_true,
    flatten_blocks kResponseBuffer_pos]
  conv_rhs => rw [← List.take_append_drop kResponseBuffer response]
  rw [List.drop_append_of_le_length (by rw [List.length_take]; omega)]

theorem written_of_none (h : firstAt kHeadersEnd (response.take kResponseBuffer) = none) :
    written response = written (response.drop kResponseBuffer) := by
  by_cases hne : response = []
  · rw [hne, List.drop_nil]
  · simp only [written, blocks_of_ne_nil kResponseBuffer_pos hne, writeResponse, h]

theorem written_eq_nil (h : firstAt kHeadersEnd response = none) : written response = [] := by
  induction response using blocks_induction kResponseBuffer_pos with
  | hnil => rw [written_nil]
  | hblock response _ ih =>
      rw [written_of_none (firstAt_take_none h)]
      exact ih (firstAt_drop_none h (by decide))

/-- What is written comes after an end of headers. -/
theorem length_written_le (response : Bytes) :
    written response = [] ∨ (written response).length + 4 ≤ response.length := by
  induction response using blocks_induction kResponseBuffer_pos with
  | hnil => exact Or.inl written_nil
  | hblock response _ ih =>
      cases h : firstAt kHeadersEnd (response.take kResponseBuffer) with
      | none =>
          rw [written_of_none h]
          rw [List.length_drop] at ih
          exact ih.imp_right fun hle => by omega
      | some pos =>
          have hlength := le_length_of_firstAt h
          rw [length_kHeadersEnd, List.length_take] at hlength
          right
          rw [written_of_some h, List.length_drop]
          omega

/-- Headers that end across two blocks: the end is not found, and what is written is shorter than the body. -/
theorem written_ne_body (h : firstAt kHeadersEnd (response.take kResponseBuffer) = none)
    (hpos : firstAt kHeadersEnd response = some pos) (hlt : pos < kResponseBuffer) :
    written response = body response ↔ body response = [] := by
  have hend := lt_of_firstAt_take h hpos
  have hlength := le_length_of_firstAt hpos
  rw [length_kHeadersEnd] at hend hlength
  have hbody := body_of_some hpos
  have hshort := length_written_le (response.drop kResponseBuffer)
  rw [← written_of_none h, List.length_drop] at hshort
  constructor
  · intro heq
    rw [heq] at hshort
    refine hshort.resolve_right fun hle => ?_
    rw [hbody, List.length_drop] at hle
    omega
  · intro hnil
    rw [hnil]
    refine hshort.resolve_right fun hle => ?_
    have hzero := congrArg List.length hnil
    rw [hbody, List.length_drop, List.length_nil] at hzero
    omega

/-- The two ways in which the headers can end. -/
theorem written_cases (response : Bytes) :
    HeadersInBlock response ∧ written response = body response ∨
      ¬ HeadersInBlock response ∧ (written response = body response ↔ body response = []) := by
  induction response using blocks_induction kResponseBuffer_pos with
  | hnil => exact Or.inl ⟨by decide, written_nil⟩
  | hblock response _ ih =>
      cases hpos : firstAt kHeadersEnd response with
      | none =>
          refine Or.inl ⟨?_, ?_⟩
          · rw [HeadersInBlock, hpos]
            simp
          · rw [written_eq_nil hpos, body, hpos]
      | some pos =>
          have hbody := body_of_some hpos
          have hheaders := headersInBlock_iff hpos
          cases h : firstAt kHeadersEnd (response.take kResponseBuffer) with
          | some first =>
              -- the first block has the end of the headers
              obtain ⟨hfirst, hle⟩ := firstAt_of_take h
              rw [hpos] at hfirst
              cases hfirst
              rw [length_kHeadersEnd] at hle
              refine Or.inl ⟨hheaders.mpr ?_, by rw [written_of_some h, hbody]⟩
              rwa [Nat.mod_eq_of_lt (by omega)]
          | none =>
              have hend := lt_of_firstAt_take h hpos
              rw [length_kHeadersEnd] at hend
              by_cases hlt : pos < kResponseBuffer
              · refine Or.inr ⟨?_, written_ne_body h hpos hlt⟩
                rw [hheaders, Nat.mod_eq_of_lt hlt]
                omega
              · -- a later block has it
                have hdrop := firstAt_drop hpos (Nat.le_of_not_lt hlt)
                have hbody' : body (response.drop kResponseBuffer) = body response := by
                  rw [hbody, body_of_some hdrop, List.drop_drop,
                    show kResponseBuffer + (pos - kResponseBuffer + 4) = pos + 4 by omega]
                have hheaders' : HeadersInBlock (response.drop kResponseBuffer) ↔ HeadersInBlock response := by
                  rw [hheaders, headersInBlock_iff hdrop, Nat.mod_eq_sub_mod (Nat.le_of_not_lt hlt)]
                rw [hbody', hheaders', ← written_of_none h] at ih
                exact ih

theorem written_of_headersInBlock (h : HeadersInBlock response) : written response = body response := by
  rcases written_cases response with ⟨-, heq⟩ | ⟨hnot, -⟩
  · exact heq
  · exact absurd h hnot

/-- **The body of a response**: the file gets what follows the headers exactly when these do not end across two blocks
of the buffer, or nothing follows them. -/
theorem response_body_iff (response : Bytes) : written response = body response ↔
    HeadersInBlock response ∨ body response = [] := by
  rcases written_cases response with ⟨hheaders, heq⟩ | ⟨hnot, hiff⟩
  · exact iff_of_true heq (Or.inl hheaders)
  · rw [hiff]
    exact ⟨Or.inr, fun h => h.resolve_left hnot⟩

end Znode.Zk
