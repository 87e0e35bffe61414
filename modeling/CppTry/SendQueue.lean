import CppTry.NetConnection

namespace CppTry

/-- An event of the traffic on the connection object `n`, not of any descriptor. -/
def NetEvent.Traffic (n : Nat) : NetEvent → Prop
  | .delivered k _ => k = n
  | .sent k _ => k = n
  | .login _ => True
  | _ => False

namespace Host

/-- What serving the connection `n` on socket `s` may do to the shared state: it adds `es` to
the trace and can change only the mask registered for `s`. -/
structure Serves (host host' : Host) (s : Int) (n : Nat) (es : List NetEvent) : Prop where
  opened : host'.opened = host.opened
  allocated : host'.allocated = host.allocated
  buffer : host'.buffer.length = host.buffer.length
  trace : host'.trace = host.trace ++ es
  traffic : ∀ e ∈ es, e.Traffic n
  epoll_mem (t : Int) : t ∈ host'.epoll ↔ t ∈ host.epoll
  epoll_other {t : Int} : t ≠ s → host'.epoll[t]? = host.epoll[t]?

theorem Serves.refl (host : Host) (s : Int) (n : Nat) : host.Serves host s n [] :=
  ⟨rfl, rfl, rfl, by simp, by simp, fun _ => Iff.rfl, fun _ => rfl⟩

theorem Serves.trans {a b c : Host} {s : Int} {n : Nat} {es fs : List NetEvent}
    (h : a.Serves b s n es) (k : b.Serves c s n fs) : a.Serves c s n (es ++ fs) where
  opened := k.opened.trans h.opened
  allocated := k.allocated.trans h.allocated
  buffer := k.buffer.trans h.buffer
  trace := by rw [k.trace, h.trace, List.append_assoc]
  traffic e he := (List.mem_append.mp he).elim (h.traffic e) (k.traffic e)
  epoll_mem t := (k.epoll_mem t).trans (h.epoll_mem t)
  epoll_other ht := (k.epoll_other ht).trans (h.epoll_other ht)

theorem Serves.log (host : Host) (s : Int) {n : Nat} {e : NetEvent} (he : e.Traffic n) :
    host.Serves (host.log e) s n [e] :=
  ⟨rfl, rfl, rfl, rfl, by simpa using he, fun _ => Iff.rfl, fun _ => rfl⟩

theorem epollMod_serves (host : Host) (s : Int) (n : Nat) (mask : UInt32) :
    host.Serves (host.epollMod s mask) s n [] := by
  unfold epollMod
  split
  next hs =>
    refine ⟨rfl, rfl, rfl, by simp, by simp, ?_, ?_⟩
    · intro t
      simp only [Std.ExtTreeMap.mem_insert, Std.compare_eq_iff_eq]
      constructor
      · rintro (rfl | ht)
        · exact hs
        · exact ht
      · exact Or.inr
    · intro t ht
      simp only [Std.ExtTreeMap.getElem?_insert, Std.compare_eq_iff_eq]
      rw [if_neg (Ne.symm ht)]
  next => exact Serves.refl host s n

end Host

/-- The bytes a packet takes on the wire. -/
def NetPackage.bytes (p : NetPackage) : List Byte := p.header.encode ++ p.body

theorem NetPackage.bytes_ne_nil (p : NetPackage) : p.bytes ≠ [] := by
  intro hnil
  have hl := congrArg List.length hnil
  rw [NetPackage.bytes, List.length_append, NetPackageHeader.length_encode, List.length_nil] at hl
  omega

/-- The packet that `Send(guid, cmd, body)` puts on the wire. -/
def sendPackage (guid : Int64) (cmd len : Int32) (body : List Byte) : NetPackage :=
  ⟨{ NetPackageHeader.new.setSign with command := cmd, guid, bodySize := len }, body⟩

namespace NetConnection

/-- The outgoing half of a connection is in order. -/
structure SendValid (con : NetConnection) : Prop where
  valid : con.sendBuffer.Valid
  size : con.sendBuffer.size = netBufferSize

theorem updateConnectionSend_serves (build : Build) (host : Host) (con : NetConnection) :
    host.Serves (updateConnectionSend build host con) con.socket con.serial [] := by
  cases build with
  | win => exact Host.Serves.refl host _ _
  | posix => exact Host.epollMod_serves host _ _ _

theorem addSendData_spec (build : Build) (host : Host) {con : NetConnection} {buffer : List Byte}
    {n : Nat} (hv : con.SendValid) (hb : n ≤ buffer.length) (hn : n ≤ 1024) :
    ∃ ok b, con.addSendData build host buffer n =
        some (ok, updateConnectionSend build host { con with sendBuffer := b },
          { con with sendBuffer := b }) ∧
      { con with sendBuffer := b }.SendValid ∧
      (ok = true → b.contents = con.sendBuffer.contents ++ buffer.take n) ∧
      (ok = false → b = con.sendBuffer ∧ 8192 < con.sendBuffer.contents.length + n) := by
  obtain ⟨hval, hsize⟩ := hv
  by_cases hf : con.sendBuffer.length + n ≤ con.sendBuffer.size
  · obtain ⟨b, ha, hbv, hbs, hbc⟩ := ByteBuffer.addData_fits hval hb hf
    exact ⟨true, b, by simp [addSendData, ha], ⟨hbv, hbs.trans hsize⟩, fun _ => hbc, by simp⟩
  · have hs : con.sendBuffer.size = 8192 := hsize
    have hle := hval.length_le
    have ha : con.sendBuffer.addData buffer n = _ :=
      ByteBuffer.addData_refused hval (by omega) (by omega)
    refine ⟨false, con.sendBuffer, by simp [addSendData, ha], ⟨hval, hsize⟩, by simp,
      fun _ => ⟨rfl, ?_⟩⟩
    have hlen := hval.contents_length
    rw [hsize, netBufferSize] at hf
    omega

theorem send_eq (build : Build) (host : Host) (con : NetConnection) (guid : Int64) (cmd : Int32)
    {buffer : List Byte} {len : Int32} {n : Nat} (hn : len.toInt = n) (hb : n ≤ buffer.length)
    (hm : n ≤ 996) :
    con.send build host guid cmd buffer len = con.addSendData build host
      (splice (zeros 1024) 0 (sendPackage guid cmd len (buffer.take n)).bytes) (28 + n : Nat) := by
  let head := (sendPackage guid cmd len (buffer.take n)).header
  have hp : head.pack (zeros 1024) (0 : Nat) = some _ := head.pack_eq (by simp)
  have hl : (splice (zeros 1024) 0 head.encode).length = 1024 := by
    rw [length_splice (by simp), length_zeros]
  have hc : memcpy (splice (zeros 1024) 0 head.encode) (28 : Nat) buffer (0 : Nat) n = some _ :=
    memcpy_eq_some (by omega) (by omega)
  have hj : splice (splice (zeros 1024) 0 head.encode) (0 + head.encode.length) (buffer.take n) = _ :=
    splice_splice (by simp)
  rw [NetPackageHeader.length_encode, Nat.zero_add] at hj
  rw [List.drop_zero, hj] at hc
  rw [send, hn]
  change ((sendPackage guid cmd len (buffer.take n)).header.pack (zeros 1024) 0).bind _ = _
  rw [show (0 : Int) = (0 : Nat) from rfl, hp]
  change (memcpy _ (28 : Nat) buffer (0 : Nat) n).bind _ = _
  rw [hc]
  rfl

/-- `Send` queues the whole packet or, when the buffer has no room for it, nothing. -/
theorem send_spec (build : Build) (host : Host) {con : NetConnection} (guid : Int64) (cmd : Int32)
    {buffer : List Byte} {len : Int32} {n : Nat} (hv : con.SendValid) (hn : len.toInt = n)
    (hb : n ≤ buffer.length) (hm : n ≤ 996) :
    ∃ ok b, con.send build host guid cmd buffer len =
        some (ok, updateConnectionSend build host { con with sendBuffer := b },
          { con with sendBuffer := b }) ∧
      { con with sendBuffer := b }.SendValid ∧
      (ok = true → b.contents = con.sendBuffer.contents ++
        (sendPackage guid cmd len (buffer.take n)).bytes) ∧
      (ok = false → b = con.sendBuffer ∧ 8192 < con.sendBuffer.contents.length + (28 + n)) := by
  have hlen : (sendPackage guid cmd len (buffer.take n)).bytes.length = 28 + n := by
    simp only [NetPackage.bytes, List.length_append, NetPackageHeader.length_encode, sendPackage,
      List.length_take]
    omega
  have ht : (splice (zeros 1024) 0 (sendPackage guid cmd len (buffer.take n)).bytes).take
      (0 + (sendPackage guid cmd len (buffer.take n)).bytes.length) = _ := take_splice (by simp)
  rw [hlen, Nat.zero_add, List.take_zero, List.nil_append] at ht
  have hl : (splice (zeros 1024) 0 (sendPackage guid cmd len (buffer.take n)).bytes).length = 1024 := by
    rw [length_splice (by rw [hlen, length_zeros]; omega), length_zeros]
  rw [send_eq build host con guid cmd hn hb hm]
  have hs := addSendData_spec build host (n := 28 + n) hv (by rw [hl]; omega) (by omega)
  rw [ht] at hs
  exact hs

/-- Whether or not there was room, something waits to be sent after a `Send`. -/
theorem send_queues (build : Build) (host : Host) {con : NetConnection} (guid : Int64) (cmd : Int32)
    {buffer : List Byte} {len : Int32} {n : Nat} (hv : con.SendValid) (hn : len.toInt = n)
    (hb : n ≤ buffer.length) (hm : n ≤ 996) :
    ∃ ok b, con.send build host guid cmd buffer len =
        some (ok, updateConnectionSend build host { con with sendBuffer := b },
          { con with sendBuffer := b }) ∧
      { con with sendBuffer := b }.SendValid ∧ con.sendBuffer.contents <+: b.contents ∧
      b.contents ≠ [] := by
  obtain ⟨ok, b, hs, hbv, hok, hno⟩ := send_spec build host guid cmd hv hn hb hm
  refine ⟨ok, b, hs, hbv, ?_⟩
  cases ok with
  | true =>
    rw [hok rfl]
    exact ⟨List.prefix_append _ _, List.append_ne_nil_of_right_ne_nil _ (NetPackage.bytes_ne_nil _)⟩
  | false =>
    obtain ⟨rfl, hfull⟩ := hno rfl
    exact ⟨List.prefix_rfl, List.ne_nil_of_length_pos (by omega)⟩

/-- `DoSend` hands the front of the queue to the kernel and keeps the rest. -/
theorem doSend_spec (build : Build) (host : Host) {con : NetConnection} (result : SendResult)
    (hv : con.SendValid) :
    ∃ ret host' b bytes, con.doSend build host result = some (ret, host', { con with sendBuffer := b }) ∧
      { con with sendBuffer := b }.SendValid ∧ con.sendBuffer.contents = bytes ++ b.contents ∧
      (ret = 0 ∨ ret = 1) ∧
      (b = con.sendBuffer ∧ host' = host ∧ bytes = [] ∨
        host' = updateConnectionSend build (host.log (.sent con.serial bytes))
          { con with sendBuffer := b }) := by
  obtain ⟨hval, hsize⟩ := hv
  have idle : ∀ ret : Int, ret = 0 ∨ ret = 1 → con.doSend build host result = some (ret, host, con) →
      ∃ ret host' b bytes, con.doSend build host result =
          some (ret, host', { con with sendBuffer := b }) ∧
        { con with sendBuffer := b }.SendValid ∧ con.sendBuffer.contents = bytes ++ b.contents ∧
        (ret = 0 ∨ ret = 1) ∧
        (b = con.sendBuffer ∧ host' = host ∧ bytes = [] ∨
          host' = updateConnectionSend build (host.log (.sent con.serial bytes))
            { con with sendBuffer := b }) :=
    fun ret hr h => ⟨ret, host, con.sendBuffer, [], h, ⟨hval, hsize⟩, rfl, hr, Or.inl ⟨rfl, rfl, rfl⟩⟩
  by_cases hp : con.sendBuffer.length > 0
  · cases result with
    | failed errno => exact idle 1 (Or.inr rfl) (by simp [doSend, hp])
    | taken room =>
      by_cases hr : min room con.sendBuffer.length.toNat > 0
      · have hle : ((min room con.sendBuffer.length.toNat : Nat) : Int) ≤ con.sendBuffer.length := by
          omega
        obtain ⟨b, hb, hbv, hbs, hbc⟩ := ByteBuffer.removeData_valid hval hle
        have ht : con.sendBuffer.data.take (min room con.sendBuffer.length.toNat) =
            con.sendBuffer.contents.take (min room con.sendBuffer.length.toNat) := by
          rw [ByteBuffer.contents, List.take_take]
          congr 1
          omega
        refine ⟨0, _, b, con.sendBuffer.data.take (min room con.sendBuffer.length.toNat), ?_,
          ⟨hbv, hbs.trans hsize⟩, ?_, Or.inl rfl, Or.inr rfl⟩
        · rw [doSend, if_pos hp]
          simp only [if_pos hr, hb]
          rfl
        · rw [hbc, ht, List.take_append_drop]
      · exact idle 0 (Or.inl rfl) (by rw [doSend, if_pos hp]; simp only [if_neg hr])
  · exact idle 0 (Or.inl rfl) (by unfold doSend; rw [if_neg hp])

end NetConnection

end CppTry
