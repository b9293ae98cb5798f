import Xupeng.Core.Entries
import Xupeng.Core.Run
import Xupeng.Models.Socket.Native.State

/-!
# What a socket says of itself

A socket that is connected has a descriptor, and a local address that is kept is the one that
the kernel has for this descriptor. The first is lost when a factory for UDP does not get a
descriptor. The second is lost when the socket is closed, since the address stays, and when
`bind`, `connect` or `listen` give it another name after it was asked for.
-/

namespace Xupeng.Socket

/-- A socket whose fields are true. -/
structure Sound (s : Socket) : Prop where
  connected : s.isConnected = true → s.isValid = true
  cached : ∀ a, s.localAddress = some a → s.getsockname = some a

/-- If a local address is kept, it is the one with this name. -/
def Fits (s : Socket) (name : Sockaddr) : Prop :=
  s.localAddress = none ∨ s.localAddress = some (Address.read s.family name)

instance (s : Socket) (name : Sockaddr) : Decidable (s.Fits name) :=
  inferInstanceAs (Decidable (_ ∨ _))

/-- The factories that open a socket. -/
def Factory.opens : Factory → Bool
  | udp _ | udpSocket | udpSocket6 => true
  | _ => false

/-- When an operation keeps a socket sound: no address is kept over a `close`, also not over that
of a failed `connect`, and none is kept over a call that gives the socket another name. -/
def Method.keeps : Method → Socket → Prop
  | bind addr _ inUse answer _, s =>
    addr.getFamily ≠ s.family ∨ (addr.cls = .unix ∧ inUse = true) ∨ s.Fits answer.name
  | connect addr _ answer _, s =>
    addr.getFamily ≠ s.family ∨ s.localAddress = none ∨
      (answer.ok = true ∧ s.Fits answer.name)
  | listen answer, s => s.Fits answer.name
  | close, s => s.localAddress = none
  | reconnect .., _ | getLocalAddress _, _ | getRemoteAddresses _, _ => True

instance (method : Method) (s : Socket) : Decidable (method.keeps s) := by
  cases method <;> unfold Method.keeps <;> infer_instance

/-- When an operation keeps all sockets sound. -/
def Keeps (sockets : List Socket) : Op → Prop
  | .create factory made => factory.opens = true → made.isSome = true
  | .accept .. => True
  | .call i method => ∀ s ∈ sockets[i]?, method.keeps s

instance (sockets : List Socket) (op : Op) : Decidable (Keeps sockets op) := by
  cases op <;> unfold Keeps <;> infer_instance

/-! ## One socket -/

/-- Without a descriptor nothing is kept. -/
theorem Sound.localAddress_none {s : Socket} (h : s.Sound) (hs : s.isValid = false) :
    s.localAddress = none := by
  cases haddr : s.localAddress with
  | none => rfl
  | some a =>
    have hname := h.cached a haddr
    rw [getsockname, Option.not_isSome_iff_eq_none.mp (Bool.eq_false_iff.mp hs)] at hname
    cases hname

/-- A socket that keeps no address is sound if it has a descriptor or is not connected. -/
theorem sound_of_none {s : Socket} (haddr : s.localAddress = none)
    (h : s.isConnected = true → s.isValid = true) : s.Sound := by
  refine ⟨h, fun a ha => ?_⟩
  rw [haddr] at ha
  cases ha

/-- Asking for the local address does not change whether a socket is sound. -/
theorem sound_getLocalAddress {s : Socket} {named : Bool} :
    (s.getLocalAddress named).2.Sound ↔ s.Sound := by
  unfold getLocalAddress
  cases haddr : s.localAddress with
  | some a => rfl
  | none =>
    cases hname : s.getsockname with
    | none => rfl
    | some a =>
      cases named with
      | false => rfl
      | true =>
        constructor
        · intro h
          exact sound_of_none haddr h.connected
        · intro h
          refine ⟨h.connected, fun b hb => ?_⟩
          cases hb
          exact hname

/-- Nor does asking for the remote address. -/
theorem sound_getRemoteAddresses {s : Socket} {peer : Option Sockaddr} (h : s.Sound) :
    (s.getRemoteAddresses peer).2.Sound := by
  unfold getRemoteAddresses
  split
  · exact h
  · split
    · exact ⟨h.connected, h.cached⟩
    · exact h

/-- A socket that has got another name is sound if the address that it keeps fits. -/
theorem sound_rename {s : Socket} (hs : s.isValid = true) (name : Sockaddr) :
    (s.rename name).Sound ↔ s.Fits name := by
  obtain ⟨d, hd⟩ := Option.isSome_iff_exists.mp hs
  have hvalid : (s.rename name).isValid = true := by simp [rename, isValid, hd]
  have hname : (s.rename name).getsockname = some (Address.read s.family name) := by
    simp [rename, getsockname, hd]
  constructor
  · intro h
    cases haddr : s.localAddress with
    | none => exact Or.inl haddr
    | some a =>
      have hcached := h.cached a haddr
      rw [hname] at hcached
      exact Or.inr (haddr.trans hcached.symm)
  · rintro (haddr | haddr)
    · exact sound_of_none haddr fun _ => hvalid
    · refine ⟨fun _ => hvalid, fun a ha => ?_⟩
      have heq : s.localAddress = some a := ha
      rw [hname, ← haddr, heq]

/-- A socket that has no descriptor any more is sound if it keeps no address. -/
theorem sound_closed {s : Socket} :
    ({ s with isConnected := false, sock := none } : Socket).Sound ↔ s.localAddress = none := by
  constructor
  · intro h
    exact h.localAddress_none rfl
  · intro haddr
    exact sound_of_none haddr nofun

/-- Closing forgets the descriptor and not the address. -/
theorem sound_close {s : Socket} (h : s.Sound) : s.close.2.Sound ↔ s.localAddress = none := by
  unfold close
  split
  · next hcond =>
    have hinvalid : s.isValid = false := by simpa using (Bool.and_eq_true_iff.mp hcond).2
    exact iff_of_true h (h.localAddress_none hinvalid)
  · exact sound_closed

/-- The first lines of `bind` and `connect`. -/
theorem Sound.ensure {s : Socket} (h : s.Sound) (made : Option Descriptor) :
    (s.ensure made).Sound ∧ (s.ensure made).localAddress = s.localAddress ∧
      (s.ensure made).family = s.family := by
  unfold Socket.ensure
  split
  · exact ⟨h, rfl, rfl⟩
  · next hs =>
    have hinvalid : s.isValid = false := by simpa using hs
    refine ⟨sound_of_none (h.localAddress_none hinvalid) fun hconn => ?_, rfl, rfl⟩
    rw [h.connected hconn] at hinvalid
    cases hinvalid

/-! ## The operations -/

/-- The statements of `bind` on an open socket. -/
theorem sound_bindOpen {s : Socket} (h : s.Sound) (addr : Address) (made : Option Descriptor)
    (inUse : Bool) (answer : Answer) (named : Bool) :
    (s.bindOpen addr inUse answer named).2.Sound ↔
      (Method.bind addr made inUse answer named).keeps s := by
  unfold bindOpen Method.keeps
  cases hvalid : s.isValid with
  | false => simp [Fits, h.localAddress_none hvalid, h]
  | true =>
    have hrename := sound_rename hvalid answer.name
    by_cases hfamily : addr.getFamily = s.family
    · by_cases huse : addr.cls = .unix ∧ inUse = true
      · simp [hfamily, huse, h]
      · cases hok : answer.ok with
        | false => simpa [hfamily, huse] using hrename
        | true => simpa [hfamily, huse, sound_getLocalAddress] using hrename
    · simp [hfamily, h]

/-- A connected socket with a descriptor is sound as it would be without being connected. -/
theorem sound_connected {s : Socket} (hs : s.isValid = true) :
    ({ s with isConnected := true } : Socket).Sound ↔ s.Sound :=
  ⟨fun h => ⟨fun _ => hs, h.cached⟩, fun h => ⟨fun _ => hs, h.cached⟩⟩

/-- The statements of `connect` on an open socket. -/
theorem sound_connectOpen {s : Socket} (h : s.Sound) (addr : Address)
    (made : Option Descriptor) (answer : Answer) (named : Bool) :
    (s.connectOpen addr answer named).2.Sound ↔
      (Method.connect addr made answer named).keeps s := by
  unfold connectOpen Method.keeps
  cases hvalid : s.isValid with
  | false => simp [h.localAddress_none hvalid, h]
  | true =>
    have hrename := sound_rename hvalid answer.name
    have hvalid' : (s.rename answer.name).isValid = true := by
      simpa [rename, isValid] using hvalid
    by_cases hfamily : addr.getFamily = s.family
    · cases hok : answer.ok with
      | false =>
        have hclose : (s.rename answer.name).close.2 =
            { s.rename answer.name with isConnected := false, sock := none } := by
          simp [close, hvalid']
        have hclosed : (s.rename answer.name).close.2.Sound ↔ s.localAddress = none := by
          rw [hclose]
          exact sound_closed (s := s.rename answer.name)
        simpa [hfamily, hok] using hclosed
      | true =>
        have hnone : s.localAddress = none → s.Fits answer.name := Or.inl
        have hfits : s.localAddress = none ∨ s.Fits answer.name ↔ s.Fits answer.name :=
          or_iff_right_of_imp hnone
        simpa [hfamily, hok, sound_getLocalAddress, sound_connected hvalid', hfits] using hrename
    · simp [hfamily, h]

/-- The socket is made first if there is none. -/
theorem sound_bind {s : Socket} (h : s.Sound) (addr : Address) (made : Option Descriptor)
    (inUse : Bool) (answer : Answer) (named : Bool) :
    (s.bind addr made inUse answer named).2.Sound ↔
      (Method.bind addr made inUse answer named).keeps s := by
  obtain ⟨hs, haddr, hfamily⟩ := h.ensure made
  have hiff := sound_bindOpen hs addr made inUse answer named
  simp only [Method.keeps, Fits, haddr, hfamily] at hiff
  exact hiff

theorem sound_connect {s : Socket} (h : s.Sound) (addr : Address) (made : Option Descriptor)
    (answer : Answer) (named : Bool) :
    (s.connect addr made answer named).2.Sound ↔
      (Method.connect addr made answer named).keeps s := by
  have hremote : ({ s with remoteAddress := some addr } : Socket).Sound :=
    ⟨h.connected, h.cached⟩
  obtain ⟨hs, haddr, hfamily⟩ := hremote.ensure made
  have hiff := sound_connectOpen hs addr made answer named
  simp only [Method.keeps, Fits, haddr, hfamily] at hiff
  exact hiff

/-- `reconnect` forgets the local address first. -/
theorem sound_reconnect {s : Socket} (h : s.Sound) (made : Option Descriptor) (answer : Answer)
    (named : Bool) : (s.reconnect made answer named).2.Sound := by
  unfold reconnect
  split
  · exact h
  · have hcleared : ({ s with localAddress := none } : Socket).Sound :=
      sound_of_none rfl h.connected
    exact (sound_connect hcleared _ made answer named).mpr (Or.inr (Or.inl rfl))

/-- A socket that listens has got a name from the kernel. -/
theorem sound_listen {s : Socket} (h : s.Sound) (answer : Answer) :
    (s.listen answer).2.Sound ↔ s.Fits answer.name := by
  unfold listen
  cases hvalid : s.isValid with
  | false => exact iff_of_true h (Or.inl (h.localAddress_none hvalid))
  | true => exact sound_rename hvalid answer.name

/-- An operation keeps a socket sound exactly under its condition. -/
theorem sound_apply {s : Socket} (h : s.Sound) (method : Method) :
    (method.apply s).Sound ↔ method.keeps s := by
  cases method with
  | bind addr made inUse answer named => exact sound_bind h addr made inUse answer named
  | connect addr made answer named => exact sound_connect h addr made answer named
  | reconnect made answer named => exact iff_of_true (sound_reconnect h made answer named) trivial
  | listen answer => exact sound_listen h answer
  | close => exact sound_close h
  | getLocalAddress named => exact iff_of_true (sound_getLocalAddress.mpr h) trivial
  | getRemoteAddresses peer => exact iff_of_true (sound_getRemoteAddresses h) trivial

/-! ## Runs -/

theorem sound_create (family type : Int32) : (create family type).Sound :=
  sound_of_none rfl nofun

/-- Nor does one that was opened. -/
theorem sound_createOpen (family type : Int32) (made : Option Descriptor) :
    (createOpen family type made).Sound ↔ made.isSome = true :=
  ⟨fun h => h.connected rfl, fun h => sound_of_none rfl fun _ => h⟩

/-- A factory makes a sound socket, unless it opens one and gets no descriptor. -/
theorem sound_make (factory : Factory) (made : Option Descriptor) :
    (factory.make made).Sound ↔ (factory.opens = true → made.isSome = true) := by
  have hopens : made.isSome = true ↔ (true = true → made.isSome = true) := by simp
  cases factory with
  | udp | udpSocket | udpSocket6 => exact (sound_createOpen _ _ made).trans hopens
  | tcp | tcpSocket | tcpSocket6 | unixTcpSocket | unixUdpSocket =>
    exact iff_of_true (sound_create _ _) nofun

/-- A socket that was accepted is sound. -/
theorem sound_accept {s t : Socket} {newsock : Option Descriptor} {managed named : Bool}
    {peer : Option Sockaddr} (h : s.accept newsock managed named peer = some t) : t.Sound := by
  unfold accept at h
  split at h
  · cases managed with
    | false => cases h
    | true =>
      cases h
      refine sound_getRemoteAddresses (sound_getLocalAddress.mpr ?_)
      exact sound_of_none rfl fun _ => rfl
  · cases h

/-- All sockets are sound. -/
def AllSound (sockets : List Socket) : Prop := ∀ s ∈ sockets, s.Sound

theorem allSound_append {sockets new : List Socket} (h : AllSound sockets) :
    AllSound (sockets ++ new) ↔ AllSound new := by
  constructor
  · intro hall s hs
    exact hall s (List.mem_append_right _ hs)
  · intro hnew s hs
    rcases List.mem_append.mp hs with hs | hs
    · exact h s hs
    · exact hnew s hs

theorem allSound_set {sockets : List Socket} {i : Nat} {s t : Socket} (h : AllSound sockets)
    (hi : sockets[i]? = some s) : AllSound (sockets.set i t) ↔ t.Sound := by
  constructor
  · intro hall
    exact hall t (mem_set_self t hi)
  · intro ht
    exact forall_mem_set h ht

/-- An operation keeps all sockets sound exactly under its condition. -/
theorem allSound_iff_keeps {sockets sockets' : List Socket} {op : Op} (h : AllSound sockets)
    (hstep : step sockets op = some sockets') : AllSound sockets' ↔ Keeps sockets op := by
  cases op with
  | create factory made =>
    cases hstep
    rw [allSound_append h]
    simpa [AllSound, Keeps] using sound_make factory made
  | accept i newsock managed named peer =>
    obtain ⟨s, -, rfl⟩ := Option.map_eq_some_iff.mp hstep
    rw [allSound_append h]
    refine iff_of_true (fun t ht => ?_) trivial
    exact sound_accept (Option.mem_toList.mp ht)
  | call i method =>
    obtain ⟨s, hs, rfl⟩ := Option.map_eq_some_iff.mp hstep
    rw [allSound_set h hs, sound_apply (h s (List.mem_of_getElem? hs))]
    simp [Keeps, hs]

/-- In every run the sockets are sound in every state exactly when every factory that opens a
socket gets its descriptor and no address is kept over a call that closes the socket or gives it
another name. -/
theorem sockets_sound_iff (ops : List Op) (hr : (run step [] ops).isSome) :
    Along step AllSound [] ops ↔ Guarded step Keeps [] ops := by
  refine along_iff_guarded (I := fun _ => True) (fun _ _ _ _ _ _ _ => trivial) ?_ trivial nofun hr
  intro s a t _ h hstep
  exact allSound_iff_keeps h hstep

/-- The address that a server listens at. -/
def anyAddress : Sockaddr := ⟨afInet, [0x1f, 0x90, 0, 0, 0, 0]⟩

/-- The address of a client. -/
def clientName (port : UInt8) : Sockaddr := ⟨afInet, [0x9c, port, 10, 0, 0, 5]⟩

/-- The descriptors that `socket` and `accept` return. -/
def descriptor (fd : Int32) (h : fd ≠ -1) (name : Sockaddr) : Option Descriptor :=
  some ⟨fd, h, name⟩

/-- The name of a socket that has none yet. -/
def unnamed : Sockaddr := ⟨afInet, [0, 0, 0, 0, 0, 0]⟩

/-- A server binds, listens and accepts a client. -/
def serve : List Op :=
  [.create .tcpSocket none,
    .call 0 (.bind ⟨.ipv4, anyAddress⟩ (descriptor 3 (by decide) unnamed) false
      ⟨true, anyAddress⟩ true),
    .call 0 (.listen ⟨true, anyAddress⟩),
    .accept 0 (descriptor 4 (by decide) anyAddress) true true (some (clientName 0x40)),
    .call 1 (.getLocalAddress true)]

/-- A server that accepts a connection. -/
theorem sockets_sound_serve : Along step AllSound [] serve :=
  (sockets_sound_iff serve (by decide)).mpr (by decide)

/-- A client connects, closes the socket and connects again. -/
def connectTwice : List Op :=
  [.create .tcpSocket none,
    .call 0 (.connect ⟨.ipv4, anyAddress⟩ (descriptor 3 (by decide) unnamed)
      ⟨true, clientName 0x40⟩ true),
    .call 0 .close,
    .call 0 (.connect ⟨.ipv4, anyAddress⟩ (descriptor 3 (by decide) unnamed)
      ⟨true, clientName 0x41⟩ true)]

/-- The socket is connected for the second time and keeps the address of the first time. -/
theorem sockets_stale_connectTwice : ¬ Along step AllSound [] connectTwice := by
  intro h
  have hend : (run step [] connectTwice).any (fun sockets => sockets.any fun s =>
      s.localAddress = some (Address.read afInet (clientName 0x40)) ∧
        s.getsockname = some (Address.read afInet (clientName 0x41))) = true := by
    decide
  obtain ⟨sockets, hrun, hany⟩ := (Option.any_eq_true _ _).mp hend
  obtain ⟨s, hs, hfacts⟩ := List.any_eq_true.mp hany
  obtain ⟨hlocal, hname⟩ := of_decide_eq_true hfacts
  have hcached := (h.of_run hrun s hs).cached _ hlocal
  rw [hname] at hcached
  exact absurd hcached (by decide)

end Xupeng.Socket
