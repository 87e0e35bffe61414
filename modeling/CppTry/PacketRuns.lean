import CppTry.PacketHandling
import CppTry.RunInvariants

namespace CppTry

/-- Any bytes can be received, in as many chunks as it takes. -/
theorem exists_chunks (bs : List Byte) : ∃ chunks : List Chunk, chunks.flatMap (·.data) = bs := by
  induction hn : bs.length using Nat.strong_induction_on generalizing bs with
  | _ n ih =>
    by_cases hb : bs = []
    · exact ⟨[], hb.symm⟩
    · have hpos := List.length_pos_iff.mpr hb
      obtain ⟨chunks, hc⟩ := ih (bs.drop 1024).length (by rw [List.length_drop]; omega) _ rfl
      have hne : bs.take 1024 ≠ [] := by simpa using hb
      refine ⟨⟨bs.take 1024, hne, List.length_take_le _ _⟩ :: chunks, ?_⟩
      rw [List.flatMap_cons, hc, List.take_append_drop]

namespace NetConnectionManager

theorem readRun_ledger {build : Build} {m m' : NetConnectionManager} {s : Int} {con : NetConnection}
    {chunks : List Chunk} {rets : List Int} (h : m.Serving s con) (hi : con.Idle)
    (hr : readRun build s m chunks = some (rets, m')) (hz : ∀ ret ∈ rets, ret = 0) :
    ∃ con', m'.Serving s con' ∧ con'.Idle ∧ con'.serial = con.serial ∧
      Ledger.ofConnection m'.host con' =
        (packageFramer.parse (con.recvBuffer.contents ++ chunks.flatMap (·.data))).1.foldl
          (Ledger.handle con.serial) (Ledger.ofConnection m.host con) := by
  induction chunks generalizing m con rets with
  | nil =>
    cases hr
    rw [List.flatMap_nil, List.append_nil, Framer.parse_more hi.pending]
    exact ⟨con, h, hi, rfl, rfl⟩
  | cons chunk chunks ih =>
    have hout := readConnection_spec build hi h.buffer chunk
    have hread := onSocketRead_connection build h.not_listener h.connection
      ⟨.failed 0, .received chunk, .failed 0⟩
    cases hp : packageFramer.parse (con.recvBuffer.contents ++ chunk.data) with
    | mk ps t =>
      rw [hp] at hout
      match t with
      | .rest r =>
        obtain ⟨host1, con1, hone, hd, hopen, hc⟩ := hout
        obtain ⟨es, hserves, _⟩ := hd.serves
        have hl := readConnection_ledger hi h.buffer hone
        simp only [hone, Option.map_some] at hread
        rw [readRun_cons_zero chunks hread] at hr
        obtain ⟨⟨rets1, m1⟩, hrun, he⟩ := Option.map_eq_some_iff.mp hr
        cases he
        obtain ⟨con', hserv, hidle, hserial, hlast⟩ := ih (h.update con1 hserves)
          ⟨hopen, by rw [hc]; exact Framer.next_rest hp⟩ hrun
          fun ret hret => hz ret (List.mem_cons_of_mem _ hret)
        refine ⟨con', hserv, hidle, hserial.trans hd.serial, ?_⟩
        rw [List.flatMap_cons, ← List.append_assoc, Framer.parse_append_rest _ hp, List.foldl_append,
          hlast, hc, hd.serial, hl, hp]
      | .stop .rejected =>
        obtain ⟨host1, con1, hone, _⟩ := hout
        simp only [hone, Option.map_some] at hread
        rw [readRun, hread] at hr
        cases hr
        exact absurd (hz 4 (by simp)) (by decide)
      | .stop .negative =>
        change readConnection build m.host con (.received chunk) = none at hout
        simp only [hout, Option.map_none] at hread
        rw [readRun, hread] at hr
        cases hr

theorem readRun_cons_inv {build : Build} {m m' : NetConnectionManager} {s : Int} {chunk : Chunk}
    {chunks : List Chunk} {rets : List Int}
    (hr : readRun build s m (chunk :: chunks) = some (rets, m')) (hz : ∀ ret ∈ rets, ret = 0) :
    ∃ m1 rets', m.onSocketRead build s ⟨.failed 0, .received chunk, .failed 0⟩ = some (0, m1) ∧
      readRun build s m1 chunks = some (rets', m') ∧ ∀ ret ∈ rets', ret = 0 := by
  obtain ⟨⟨ret, m1⟩, hread, hr⟩ := Option.bind_eq_some_iff.mp hr
  dsimp only at hr
  split at hr
  next hne =>
    cases hr
    exact absurd (hz ret (by simp)) hne
  next h0 =>
    obtain ⟨⟨rets1, m2⟩, hrun, hr⟩ := Option.bind_eq_some_iff.mp hr
    cases hr
    rw [not_ne_iff.mp h0] at hread
    exact ⟨m1, rets1, hread, hrun, fun r hm => hz r (List.mem_cons_of_mem _ hm)⟩

theorem Reachable.readRun {m m' : NetConnectionManager} {chunks : List Chunk} {rets : List Int}
    (h : Reachable .posix m) (hr : readRun .posix 5 m chunks = some (rets, m'))
    (hz : ∀ ret ∈ rets, ret = 0) : Reachable .posix m' := by
  induction chunks generalizing m rets with
  | nil =>
    cases hr
    exact h
  | cons chunk chunks ih =>
    obtain ⟨m1, rets1, hread, hrun, hz⟩ := readRun_cons_inv hr hz
    exact ih (h.read hread) hrun hz

/-- The packets of the first client are handled one after the other, however they are received. -/
theorem oneClient_chunks {ps : List NetPackage} {chunks : List Chunk}
    (h : ∀ p ∈ ps, p.header.Accepted ∧ p.header.bodySize.toInt = p.body.length)
    (hc : chunks.flatMap (·.data) = ps.flatMap NetPackage.bytes) :
    ∃ rets m con, readRun .posix 5 oneClient chunks = some (rets, m) ∧ (∀ ret ∈ rets, ret = 0) ∧
      m.connections[(5 : Int)]? = some con ∧ con.serial = 0 ∧
      Ledger.ofConnection m.host con = ps.foldl (Ledger.handle 0)
        (Ledger.ofConnection oneClient.host ((NetConnection.new 0).setSocket 5)) := by
  have hi := NetConnection.new_idle 0 5
  have hserv : oneClient.Serving 5 ((NetConnection.new 0).setSocket 5) :=
    ⟨by decide, oneClient_connection, reachable_oneClient.inv.buffer⟩
  have hparse : packageFramer.parse (ps.flatMap NetPackage.bytes) = (ps.map id, .rest []) :=
    Framer.parse_flatMap (fun p hp => package_frames (h p hp).1 (h p hp).2)
      (show nextPackage [] = .more from rfl)
  have hnil : ((NetConnection.new 0).setSocket 5).recvBuffer.contents = [] := rfl
  have hout := readRun_spec .posix hserv hi chunks
  rw [hnil, List.nil_append, hc, hparse] at hout
  obtain ⟨rets, m, con, hrun, hz, _⟩ := hout
  obtain ⟨con', hserv', _, hserial, hl⟩ := readRun_ledger hserv hi hrun hz
  rw [hnil, List.nil_append, hc, hparse, List.map_id] at hl
  exact ⟨rets, m, con', hrun, hz, hserv'.connection, hserial, hl⟩

theorem oneClient_packets {ps : List NetPackage}
    (h : ∀ p ∈ ps, p.header.Accepted ∧ p.header.bodySize.toInt = p.body.length) :
    ∃ m con, Reachable .posix m ∧ m.connections[(5 : Int)]? = some con ∧ con.serial = 0 ∧
      Ledger.ofConnection m.host con = ps.foldl (Ledger.handle 0)
        (Ledger.ofConnection oneClient.host ((NetConnection.new 0).setSocket 5)) := by
  obtain ⟨chunks, hc⟩ := exists_chunks (ps.flatMap NetPackage.bytes)
  obtain ⟨rets, m, con, hrun, hz, hh⟩ := oneClient_chunks h hc
  exact ⟨m, con, reachable_oneClient.readRun hrun hz, hh⟩

end NetConnectionManager

end CppTry
