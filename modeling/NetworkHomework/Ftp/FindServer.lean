import NetworkHomework.Ftp.Site

/-!
# `findServerAddr`

The client's search for a server, cut at its `recvfrom`.  One variable, `packet`, serves
as the broadcast and as the receive buffer.  It is cleared before every receive, so
what a retry broadcasts is what the receive before it left: zeros.  The first broadcast
carries the file name, and no later one does.
-/

namespace NetworkHomework.Ftp

open CString

/-- `struct bootServerInfo` as it lies in memory, its padding left out. -/
structure BootPacket where
  servAddr : Buffer 15
  connectPort : ℤ
  filename : Buffer 128

namespace BootPacket

/-- After `memset(&packet, 0, sizeof(packet))`. -/
def zero : BootPacket := ⟨.zero 15, 0, .zero 128⟩

/-- What a server takes a received packet for. -/
def request (packet : BootPacket) (source : Addr) : Request :=
  ⟨source, cString packet.filename.bytes⟩

end BootPacket

/-- `strcpy` of a string that is shorter than the array. -/
def Buffer.strcpy {size : ℕ} (dest : Buffer size) (s : List UInt8) : Buffer size :=
  dest.recvfrom (s ++ [0])

inductive FindPc
  /-- in a `recvfrom` -/
  | receiving
  /-- received a reply -/
  | found
  /-- left by `exit(1)` -/
  | exited
  deriving DecidableEq

/-- The variables of `findServerAddr`; `sent` is what it broadcast. -/
structure FindServer where
  pc : FindPc
  packet : BootPacket
  timeoutNum : ℕ
  servaddr : Option Addr
  sent : List BootPacket

/-- Up to the first `recvfrom`; `garbage` is what `packet` holds on entry. -/
def FindServer.start (filename : List UInt8) (garbage : BootPacket) : FindServer :=
  let packet := { garbage with filename := garbage.filename.strcpy filename }
  { pc := .receiving, packet := .zero, timeoutNum := 0, servaddr := none, sent := [packet] }

/-- From one `recvfrom`, which times out or gives a packet and its source, to the next. -/
def findServerAddr (s : FindServer) (r : Option (Addr × BootPacket)) : FindServer :=
  match s.pc with
  | .receiving =>
      match r with
      | none =>
          if s.timeoutNum > 10 then { s with pc := .exited }
          else { s with
            timeoutNum := s.timeoutNum + 1, sent := s.sent ++ [s.packet], packet := .zero }
      | some (source, packet) =>
          { s with
            pc := .found, packet, servaddr := some ⟨source.host, portOf packet.connectPort⟩ }
  | .found => s
  | .exited => s

/-- The packet names the file, and every server for that file answers it. -/
structure Answerable (filename : List UInt8) (packet : BootPacket) : Prop where
  name : cString packet.filename.bytes = filename
  reply : ∀ (config : ListenConfig) (tempPort : ℤ) (source : Addr) (rand : ℕ),
    config.serFilename = filename →
      (listenClient config tempPort (packet.request source) rand).reply.isSome

theorem answerable_iff {filename : List UInt8} {packet : BootPacket} :
    Answerable filename packet ↔ cString packet.filename.bytes = filename := by
  refine ⟨Answerable.name, fun hname => ⟨hname, ?_⟩⟩
  intro config tempPort source rand hserved
  have hmatch : strncmp (packet.request source).filename config.serFilename
      config.serFilename.length = 0 := by
    rw [BootPacket.request, hname, hserved, strncmp_self]
  simp [listenClient, hmatch]

/-- A copied string is read back. -/
theorem cString_strcpy {size : ℕ} (dest : Buffer size) {s : List UInt8} (hnul : 0 ∉ s)
    (hfits : s.length < size) : cString (dest.strcpy s).bytes = s := by
  have hchars : ∀ x ∈ s, decide (x ≠ 0) = true := by
    intro x hx
    simpa using fun hzero : x = 0 => hnul (hzero ▸ hx)
  have hbytes : (dest.strcpy s).bytes = s ++ 0 :: dest.bytes.drop (s.length + 1) := by
    have hlen : (s ++ [0]).length ≤ size := by
      rw [List.length_append, List.length_singleton]
      omega
    simp [Buffer.strcpy, Buffer.recvfrom, List.take_of_length_le hlen]
  rw [hbytes, cString, List.takeWhile_append_of_pos hchars]
  simp

theorem cString_zero (size : ℕ) : cString (Buffer.zero size).bytes = [] := by
  have h := @cString_append_zeros [] List.not_mem_nil size
  rwa [List.nil_append] at h

/-! ## Runs -/

variable {s : FindServer}

theorem foldl_of_ended (hpc : s.pc ≠ .receiving) (recvs : List (Option (Addr × BootPacket))) :
    recvs.foldl findServerAddr s = s := by
  induction recvs with
  | nil => rfl
  | cons r rest ih =>
      have hstep : findServerAddr s r = s := by
        unfold findServerAddr
        cases hcase : s.pc with
        | receiving => exact absurd hcase hpc
        | found => rfl
        | exited => rfl
      rw [List.foldl_cons, hstep, ih]

/-- A receive ends the search, or the cleared packet is broadcast. -/
theorem findServerAddr_cases (hzero : s.packet = .zero) (r : Option (Addr × BootPacket)) :
    (findServerAddr s r).pc ≠ .receiving ∧ (findServerAddr s r).sent = s.sent ∨
      (findServerAddr s r).packet = .zero ∧ (findServerAddr s r).sent = s.sent ++ [.zero] := by
  unfold findServerAddr
  cases hpc : s.pc with
  | receiving =>
      cases r with
      | none =>
          dsimp only
          split_ifs with hlimit
          · exact .inl ⟨by simp, rfl⟩
          · exact .inr ⟨rfl, by rw [hzero]⟩
      | some reply => exact .inl ⟨by simp, rfl⟩
  | found => exact .inl ⟨by simp [hpc], rfl⟩
  | exited => exact .inl ⟨by simp [hpc], rfl⟩

/-- All that a run broadcasts behind the first packet is zeros. -/
theorem sent_run (hzero : s.packet = .zero) (recvs : List (Option (Addr × BootPacket))) :
    ∃ n, (recvs.foldl findServerAddr s).sent = s.sent ++ List.replicate n .zero := by
  induction recvs generalizing s with
  | nil => exact ⟨0, by simp⟩
  | cons r rest ih =>
      rw [List.foldl_cons]
      rcases findServerAddr_cases hzero r with ⟨hpc, hsent⟩ | ⟨hpacket, hsent⟩
      · rw [foldl_of_ended hpc, hsent]
        exact ⟨0, by simp⟩
      · obtain ⟨n, hn⟩ := ih hpacket
        refine ⟨n + 1, ?_⟩
        rw [hn, hsent, List.append_assoc]
        rfl

/-- **Discovery.**  Every broadcast names the file and is answered by a server for it, exactly if
the name is empty or the first receive does not time out. -/
theorem broadcasts_answerable_iff {filename : List UInt8} (hnul : 0 ∉ filename)
    (hfits : filename.length < 128) (garbage : BootPacket)
    (recvs : List (Option (Addr × BootPacket))) :
    (∀ packet ∈ (recvs.foldl findServerAddr (.start filename garbage)).sent,
        Answerable filename packet) ↔
      filename = [] ∨ recvs.head? ≠ some none := by
  have hfirst : ∀ packet ∈ (FindServer.start filename garbage).sent,
      Answerable filename packet := by
    intro packet hmem
    rw [List.mem_singleton.mp hmem]
    exact answerable_iff.mpr (cString_strcpy _ hnul hfits)
  have hzero : Answerable filename .zero ↔ filename = [] := by
    rw [answerable_iff, BootPacket.zero, cString_zero]
    exact eq_comm
  have hstart : (FindServer.start filename garbage).packet = .zero := rfl
  by_cases hempty : filename = []
  · obtain ⟨n, hn⟩ := sent_run hstart recvs
    refine iff_of_true (fun packet hmem => ?_) (.inl hempty)
    rw [hn, List.mem_append] at hmem
    rcases hmem with hmem | hmem
    · exact hfirst packet hmem
    · rw [List.eq_of_mem_replicate hmem]
      exact hzero.mpr hempty
  · rcases recvs with _ | ⟨_ | reply, rest⟩
    · simpa using hfirst
    · -- the retry is broadcast
      have hsent : (findServerAddr (.start filename garbage) none).sent =
          (FindServer.start filename garbage).sent ++ [.zero] := rfl
      obtain ⟨n, hn⟩ := @sent_run (findServerAddr (.start filename garbage) none) rfl rest
      refine iff_of_false (fun hall => hempty (hzero.mp (hall _ ?_))) (by simp [hempty])
      rw [List.foldl_cons, hn, hsent]
      simp
    · have hfound : (findServerAddr (.start filename garbage) (some reply)).pc ≠ .receiving := by
        simp [findServerAddr, FindServer.start]
      rw [List.foldl_cons, foldl_of_ended hfound]
      exact iff_of_true hfirst (by simp)

namespace LostBroadcast

def reply : Addr × BootPacket := (⟨1, 5000⟩, ⟨.zero 15, 5033, (Buffer.zero 128).strcpy (lit "a")⟩)

def prompt : FindServer := [some reply].foldl findServerAddr (.start (lit "a") .zero)

theorem broadcasts_answerable_prompt :
    prompt.sent.length = 1 ∧ ∀ packet ∈ prompt.sent, Answerable (lit "a") packet :=
  ⟨rfl, (broadcasts_answerable_iff (by decide) (by decide) .zero [some reply]).mpr
    (.inr (by simp))⟩

/-- The retry after a lost broadcast asks for nothing. -/
theorem not_broadcasts_answerable :
    ¬ ∀ (filename : List UInt8) (garbage : BootPacket) (recvs : List (Option (Addr × BootPacket))),
      0 ∉ filename → filename.length < 128 →
      ∀ packet ∈ (recvs.foldl findServerAddr (.start filename garbage)).sent,
        Answerable filename packet := by
  intro hall
  have hretry := hall (lit "a") .zero [none] (by decide) (by decide) .zero (by
    simp [findServerAddr, FindServer.start, BootPacket.zero])
  exact absurd (answerable_iff.mp hretry) (by decide)

end LostBroadcast

end NetworkHomework.Ftp
