import NetworkHomework.Ftp.InternetChecksum

/-!
# Echo messages

`fill_packet.c`: the ICMP part of a probe, with the same checksum as the packets of
`myftp.c`.  The identifier is the process id and the sequence number the global
`seq`, both cut to 16 bits by `htons`.
-/

namespace NetworkHomework.Ping

open Ftp

/-- `ICMP_DATA_SIZE` -/
def icmpDataSize : ℕ := 92 - 20 - 8 - 8

/-! ## `struct icmphdr` -/

/-- `icmp[icmptype]` in a filter; a message without it does not pass. -/
def icmpType (icmp : List UInt8) : Option UInt8 := icmp[0]?

/-- `ntohs(icmp_hdr->un.echo.id)` -/
def echoId (icmp : List UInt8) : ℕ := ntohsAt icmp 4

/-- `ntohs(icmp_hdr->un.echo.sequence)` -/
def echoSequence (icmp : List UInt8) : ℕ := ntohsAt icmp 6

/-- `fill_cksum`: header and data, whatever lies behind them. -/
def fillCksum (order : ByteOrder) (icmp : List UInt8) : ℕ :=
  inCksum order (icmp.take (8 + icmpDataSize))

/-- `fill_icmphdr`, in place. -/
def fillIcmphdr (order : ByteOrder) (pid seq : ℕ) (icmp : List UInt8) : List UInt8 :=
  let unsigned := [8, 0] ++ [0, 0] ++ htons pid ++ htons seq ++ icmp.drop 8
  [8, 0] ++ order.store (fillCksum order unsigned) ++ htons pid ++ htons seq ++ icmp.drop 8

/-- The ICMP part of probe `seq`: `main` fills the data with `'H'` before each call. -/
def probe (order : ByteOrder) (pid seq : ℕ) : List UInt8 :=
  fillIcmphdr order pid seq (List.replicate 8 0 ++ List.replicate icmpDataSize 72)

/-! ## Its fields -/

variable {order : ByteOrder} {pid seq : ℕ} {icmp : List UInt8}

theorem ntohs_htons (n : ℕ) : 256 * (UInt8.ofNat (n / 256)).toNat + (UInt8.ofNat n).toNat =
    n % 65536 := by
  simp only [UInt8.toNat_ofNat']
  omega

theorem fillIcmphdr_eq : ∃ first second, fillIcmphdr order pid seq icmp =
    8 :: 0 :: first :: second :: (htons pid ++ htons seq ++ icmp.drop 8) := by
  unfold fillIcmphdr
  cases order with
  | little => exact ⟨_, _, rfl⟩
  | big => exact ⟨_, _, rfl⟩

theorem echoId_fillIcmphdr : echoId (fillIcmphdr order pid seq icmp) = pid % 65536 := by
  obtain ⟨first, second, heq⟩ := @fillIcmphdr_eq order pid seq icmp
  rw [heq]
  exact ntohs_htons pid

theorem echoSequence_fillIcmphdr :
    echoSequence (fillIcmphdr order pid seq icmp) = seq % 65536 := by
  obtain ⟨first, second, heq⟩ := @fillIcmphdr_eq order pid seq icmp
  rw [heq]
  exact ntohs_htons seq

/-- A message of the right length verifies at its receiver. -/
theorem inCksum_fillIcmphdr (reader : ByteOrder) (h : icmp.length = 8 + icmpDataSize) :
    inCksum reader (fillIcmphdr order pid seq icmp) = 0 := by
  have hafter : (htons pid ++ htons seq ++ icmp.drop 8).length = 4 + icmpDataSize := by
    simp only [List.length_append, List.length_drop, length_htons, h]
    omega
  have hlen : [(8 : UInt8), 0].length + 2 + (htons pid ++ htons seq ++ icmp.drop 8).length ≤
      65536 := by
    rw [hafter]
    decide
  have hwhole : ([8, 0] ++ [0, 0] ++ htons pid ++ htons seq ++ icmp.drop 8).length ≤
      8 + icmpDataSize := by
    simp only [List.length_append, List.length_drop, length_htons, h, List.length_cons,
      List.length_nil]
    omega
  have hsigned := inCksum_signed order reader rfl hlen
  unfold fillIcmphdr fillCksum
  dsimp only
  rw [List.take_of_length_le hwhole]
  simpa only [List.append_assoc] using hsigned

@[simp] theorem echoId_probe : echoId (probe order pid seq) = pid % 65536 := echoId_fillIcmphdr

@[simp] theorem echoSequence_probe : echoSequence (probe order pid seq) = seq % 65536 :=
  echoSequence_fillIcmphdr

end NetworkHomework.Ping
