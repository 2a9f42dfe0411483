import NetworkHomework.Ftp.InFlight
import NetworkHomework.Ftp.InternetChecksum

/-!
# Which file requests a server accepts

The request loop of `startMyftpServer` reads a request into a buffer of the size its
own file name needs, and then looks at the checksum only.  A request for a name that is
not longer fits, and the zeros behind it change nothing, so it is accepted whatever
it asks for.  A request for a longer name is cut, and refused if the bytes cut off
contribute to the checksum.
-/

namespace NetworkHomework.Ftp

variable {config : ServerConfig} {s : Server}

/-- The request loop takes the datagram for a request. -/
def Accepts (config : ServerConfig) (s : Server) (datagram : List UInt8) : Prop :=
  ∀ source, (startMyftpServer config s (.datagram source datagram)).1.pc = .waitAck

/-- What does not fit of a request for `name` into a buffer for `served`, from the start of the word
that is cut. -/
def cutOff (name served : FileName) : List UInt8 :=
  List.replicate ((served.chars.length + 1) % 2) 0 ++
    (name.chars.drop (served.chars.length + 1) ++ [0])

theorem accepts_iff_inCksum (hpc : s.pc = .waitFrq) {datagram : List UInt8}
    (hnonempty : datagram.length ≠ 0) :
    Accepts config s datagram ↔
      inCksum config.order ((Buffer.zero config.filename.frqSize).recvfrom datagram).bytes = 0 := by
  have hstep : ∀ source, (startMyftpServer config s (.datagram source datagram)).1.pc = .waitAck ↔
      inCksum config.order ((Buffer.zero config.filename.frqSize).recvfrom datagram).bytes =
        0 := by
    intro source
    simp only [startMyftpServer, hpc, Server.waitFrq, if_neg hnonempty]
    split_ifs with hcksum
    · simpa [hpc] using hcksum
    · simpa [Server.sendChunk] using hcksum
  simp only [Accepts, hstep]
  exact ⟨fun h => h ⟨0, 0⟩, fun h _ => h⟩

/-- A longer datagram fills the buffer, and the rest of it is lost. -/
theorem Buffer.recvfrom_of_le {size : ℕ} (buffer : Buffer size) {datagram : List UInt8}
    (h : size ≤ datagram.length) : (buffer.recvfrom datagram).bytes = datagram.take size := by
  have hdrop : buffer.bytes.drop datagram.length = [] := by
    apply List.drop_eq_nil_iff.mpr
    rwa [buffer.length_bytes]
  simp only [Buffer.recvfrom, hdrop, List.append_nil]

theorem frqSize_eq (name : FileName) : name.frqSize = name.chars.length + 5 := by
  unfold FileName.frqSize
  omega

/-- The bytes cut off, as the checksum of the whole request takes them. -/
theorem cutOff_eq (order : ByteOrder) {name served : FileName}
    (h : served.chars.length < name.chars.length) :
    List.replicate (served.frqSize % 2) 0 ++ (frqPacket order name).drop served.frqSize =
      cutOff name served := by
  have hparity : served.frqSize % 2 = (served.chars.length + 1) % 2 := by
    rw [frqSize_eq]
    omega
  have hheader : (htons Opcode.frq ++ order.store (inCksum order (htons Opcode.frq ++ htons 0 ++
      name.chars ++ [0]))).length = 4 := by
    rw [List.length_append, ByteOrder.length_store, length_htons]
  rw [hparity, cutOff, frqPacket, frqSize_eq, List.append_assoc _ name.chars, List.drop_append,
    List.drop_eq_nil_of_le (by omega), List.nil_append, hheader,
    List.drop_append_of_le_length (by omega)]
  rfl

/-- The opcode is always within the buffer. -/
theorem wordSum_take_frqPacket_pos (reader order : ByteOrder) (name served : FileName) :
    0 < wordSum reader ((frqPacket order name).take served.frqSize) := by
  have hsize : served.frqSize = served.chars.length + 3 + 2 := frqSize_eq served
  have htake : (frqPacket order name).take (served.chars.length + 3 + 2) =
      0 :: 1 :: ((frqPacket order name).drop 2).take (served.chars.length + 3) := rfl
  have hload : 0 < reader.load 0 1 := by cases reader <;> decide
  rw [hsize, htake, wordSum_cons_cons]
  omega

/-- **Requests that fit** are accepted, and so are those that lose nothing that counts. -/
theorem accepts_frqPacket_iff (hpc : s.pc = .waitFrq) (order : ByteOrder) (name : FileName) :
    Accepts config s (frqPacket order name) ↔
      name.chars.length ≤ config.filename.chars.length ∨
        65535 ∣ wordSum config.order (cutOff name config.filename) := by
  have hlen := length_frqPacket order name
  have hsize := frqSize_eq config.filename
  have hfits := name.fits
  have hsigned := inCksum_frqPacket order config.order name
  rw [frqSize_eq] at hlen
  rw [accepts_iff_inCksum hpc (by omega)]
  rcases Nat.lt_or_ge config.filename.chars.length name.chars.length with hlong | hshort
  · have hwhole := (inCksum_eq_zero_iff (by omega)).mp hsigned
    rw [@wordSum_cut config.order (frqPacket order name) config.filename.frqSize,
      cutOff_eq order hlong] at hwhole
    have hpos := wordSum_take_frqPacket_pos config.order order name config.filename
    have htake : ((frqPacket order name).take config.filename.frqSize).length ≤ 65536 := by
      rw [List.length_take]
      omega
    have hnot : ¬ name.chars.length ≤ config.filename.chars.length := by omega
    rw [Buffer.recvfrom_of_le _ (by omega), inCksum_eq_zero_iff htake]
    simp only [hpos, true_and, hnot, false_or]
    exact ⟨fun h => (Nat.dvd_add_right h).mp hwhole.2, fun h => (Nat.dvd_add_left h).mp hwhole.2⟩
  · have hfit : (frqPacket order name).length ≤ config.filename.frqSize := by omega
    simp only [Buffer.zero_recvfrom_bytes hfit, inCksum_append_zeros, hsigned, hshort, true_or]

/-- **File requests.**  A request is accepted for the served name only, exactly if it is for that
name, or for a longer one of which the buffer cuts off bytes that the checksum misses. -/
theorem accepts_only_served_iff (hpc : s.pc = .waitFrq) (order : ByteOrder) (name : FileName) :
    (Accepts config s (frqPacket order name) ↔ name = config.filename) ↔
      name = config.filename ∨ config.filename.chars.length < name.chars.length ∧
        ¬ 65535 ∣ wordSum config.order (cutOff name config.filename) := by
  rw [accepts_frqPacket_iff hpc]
  by_cases hname : name = config.filename
  · have hle : name.chars.length ≤ config.filename.chars.length := by rw [hname]
    simp only [hname, le_refl, true_or]
  · simp only [hname, iff_false, false_or, not_or, Nat.not_le]

namespace OtherName

def b : FileName := ⟨[98], by decide, by decide, by decide⟩

def abc : FileName := ⟨[97, 98, 99], by decide, by decide, by decide⟩

/-- A process that serves an empty file "a". -/
def serving : ServerConfig := ⟨.little, FileName.a, []⟩

theorem accepts_only_served_abc :
    Accepts serving (Server.start ⟨2, 7000⟩ (Buffer.zero 6)) (frqPacket .little abc) ↔
      abc = FileName.a :=
  (accepts_only_served_iff rfl .little abc).mpr (.inr ⟨by decide, by decide⟩)

/-- The request for "b" is accepted. -/
theorem not_accepts_only_served :
    ¬ ∀ (config : ServerConfig) (s : Server) (order : ByteOrder) (name : FileName),
      s.pc = .waitFrq → (Accepts config s (frqPacket order name) ↔ name = config.filename) := by
  intro hall
  have haccepts : Accepts serving (Server.start ⟨2, 7000⟩ (Buffer.zero 6)) (frqPacket .little b) :=
    (accepts_frqPacket_iff rfl .little b).mpr (.inl (by decide))
  have hname := (hall serving _ .little b rfl).mp haccepts
  exact absurd (congrArg FileName.chars hname) (by decide)

end OtherName

end NetworkHomework.Ftp
