import NetworkHomework.Foundation.CString
import NetworkHomework.Ftp.Packet
import Mathlib.Data.List.Forall2

/-!
# `listenClient` and the main loop of the server

The main loop hands every return of `listenClient` except `-1` to a new transfer
process, and `listenClient` returns 0 on both of its paths: after a reply, and without
one when the requested name does not start with the served one.  `tempPort` lives in
the main loop and is written only on the first path, so a process forked without a
reply is given the port of an earlier request.

Datagrams are full `bootServerInfo` structures; a `recvfrom` or `sendto` that fails
ends the program and is not modelled.
-/

namespace NetworkHomework.Ftp

open CString

/-- A received request: its sender, and the string in its `filename` field. -/
structure Request where
  source : Addr
  filename : List UInt8
  deriving DecidableEq

/-- `struct bootServerInfo`, as sent in a reply. -/
structure BootServerInfo where
  servAddr : List UInt8
  connectPort : ℤ
  filename : List UInt8
  deriving DecidableEq

/-- The return value of `listenClient`, its output arguments, and the reply it sent. -/
structure Listened where
  ret : ℤ
  tempPort : ℤ
  clientaddr : Addr
  reply : Option BootServerInfo
  deriving DecidableEq

/-- The arguments of the main loop: the port to listen on, the own address, the served name. -/
structure ListenConfig where
  port : ℤ
  myIP : List UInt8
  serFilename : List UInt8

/-- `listenClient`, from the request it receives and the number `rand()` returns. -/
def listenClient (config : ListenConfig) (tempPort : ℤ) (request : Request) (rand : ℕ) :
    Listened :=
  if strncmp request.filename config.serFilename config.serFilename.length ≠ 0 then
    { ret := 0, tempPort, clientaddr := request.source, reply := none }
  else
    let tempPort := config.port + (rand % 1000 : ℕ) + 33
    { ret := 0, tempPort, clientaddr := request.source,
      reply := some ⟨config.myIP, tempPort, config.serFilename⟩ }

/-- The arguments a forked `startMyftpServer` gets. -/
structure Fork where
  tempPort : ℤ
  clientaddr : Addr
  deriving DecidableEq

/-- What one round of the main loop did: the reply sent and the process forked. -/
structure Round where
  reply : Option BootServerInfo
  fork : Option Fork
  deriving DecidableEq

/-- One round of the main loop, with the `tempPort` it leaves. -/
def mainRound (config : ListenConfig) (tempPort : ℤ) (request : Request) (rand : ℕ) :
    ℤ × Round :=
  let listened := listenClient config tempPort request rand
  (listened.tempPort,
    { reply := listened.reply
      fork := if listened.ret ≠ -1 then some ⟨listened.tempPort, listened.clientaddr⟩ else none })

/-- The rounds of the main loop on a sequence of requests and draws, from the value of
`tempPort` before the first. -/
def mainLoop (config : ListenConfig) : ℤ → List (Request × ℕ) → List Round
  | _, [] => []
  | tempPort, (request, rand) :: rest =>
      let (tempPort, round) := mainRound config tempPort request rand
      round :: mainLoop config tempPort rest

/-- A process is forked for the request exactly if it asks for `served`, and such a process gets
the port sent in the reply to this request and the address of its sender. -/
def ForkedForReply (served : List UInt8) (request : Request) (round : Round) : Prop :=
  (round.fork.isSome ↔ request.filename = served) ∧
    ∀ fork ∈ round.fork, fork.clientaddr = request.source ∧
      ∃ reply ∈ round.reply, fork.tempPort = reply.connectPort

variable {config : ListenConfig}

/-- Every request forks a process, whatever it asks for. -/
theorem isSome_fork_mainRound (tempPort : ℤ) (request : Request) (rand : ℕ) :
    (mainRound config tempPort request rand).2.fork.isSome := by
  have hret : (listenClient config tempPort request rand).ret = 0 := by
    unfold listenClient
    split_ifs <;> rfl
  simp [mainRound, hret]

/-- A process forked for the served name has the port of the reply. -/
theorem forkedForReply_of_filename_eq (tempPort : ℤ) {request : Request} (rand : ℕ)
    (h : request.filename = config.serFilename) :
    ForkedForReply config.serFilename request (mainRound config tempPort request rand).2 := by
  refine ⟨iff_of_true (isSome_fork_mainRound tempPort request rand) h, ?_⟩
  have hmatch : strncmp request.filename config.serFilename config.serFilename.length = 0 := by
    rw [h, strncmp_self]
  intro fork hfork
  simp only [mainRound, listenClient, hmatch, ne_eq, not_true_eq_false, if_false] at hfork ⊢
  obtain rfl : _ = fork := by simpa using hfork
  exact ⟨rfl, _, rfl, rfl⟩

/-- **Forks and requests.**  Whatever the draws and the first value of `tempPort`, the processes
are forked for answered requests only exactly if every request asks for the served name. -/
theorem forkedForReply_iff (config : ListenConfig) (tempPort : ℤ)
    (requests : List (Request × ℕ)) :
    List.Forall₂ (fun request round => ForkedForReply config.serFilename request.1 round)
        requests (mainLoop config tempPort requests) ↔
      ∀ request ∈ requests, request.1.filename = config.serFilename := by
  induction requests generalizing tempPort with
  | nil => simp [mainLoop]
  | cons head rest ih =>
      obtain ⟨request, rand⟩ := head
      simp only [mainLoop, List.forall₂_cons, List.forall_mem_cons, ih]
      refine and_congr_left fun _ => ⟨fun hround => ?_, ?_⟩
      · exact hround.1.mp (isSome_fork_mainRound tempPort request rand)
      · exact forkedForReply_of_filename_eq tempPort rand

/-- A server for "ab" that is asked for "abc" forks a process. -/
theorem forked_for_other_name :
    ¬ ∀ (config : ListenConfig) (tempPort : ℤ) (requests : List (Request × ℕ)),
      List.Forall₂ (fun request round => ForkedForReply config.serFilename request.1 round)
        requests (mainLoop config tempPort requests) := by
  intro hall
  have hround := hall ⟨5000, lit "10.0.0.1", lit "ab"⟩ 0 [(⟨⟨2, 6000⟩, lit "abc"⟩, 7)]
  simp only [mainLoop, List.forall₂_cons] at hround
  exact absurd (hround.1.1.mp (isSome_fork_mainRound _ _ _)) (by decide)

end NetworkHomework.Ftp
