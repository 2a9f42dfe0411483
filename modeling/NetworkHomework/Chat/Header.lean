import NetworkHomework.Foundation.CString
import NetworkHomework.Foundation.LinkedHeap

/-!
# The lists of the chat server

`header.h`: the two records, each a node of a doubly linked list in memory.  The list
functions of `Message` (in `send_to_client.c`) and of `Member` (in
`recv_from_client.c`) are the same code over the two types.

A `char` array holds the bytes up to its first NUL.  `thread` serves as the identity
of the session that queued a message.  `connection` is history: the accepted
connection that a member stands for.
-/

namespace NetworkHomework.Chat

open LinkedHeap

/-- `SHORTMESS` -/
def shortMess : ℕ := 512

structure Message where
  thread : ℕ
  fromName : List UInt8
  message : List UInt8
  senderGroup : List UInt8
  deriving DecidableEq

structure Member where
  fd : ℕ
  thread : ℕ
  name : List UInt8
  group : List UInt8
  connection : ℕ
  deriving DecidableEq

abbrev MessageHeap : Type := LinkedHeap Message

abbrev MemberHeap : Type := LinkedHeap Member

def messageLinkToList (h : MessageHeap) (client : ℕ) : Except Fault MessageHeap :=
  h.linkFirst client

def messageDislinkToList (h : MessageHeap) (client : ℕ) : Except Fault MessageHeap :=
  h.dislink client

def messageListSize (h : MessageHeap) (fuel : ℕ) : Except Fault ℕ := h.size fuel

def memberLinkToList (h : MemberHeap) (client : ℕ) : Except Fault MemberHeap :=
  h.linkFirst client

def memberDislinkToList (h : MemberHeap) (client : ℕ) : Except Fault MemberHeap :=
  h.dislink client

def memberListSize (h : MemberHeap) (fuel : ℕ) : Except Fault ℕ := h.size fuel

end NetworkHomework.Chat
