import Ocse.Dma

/-!
# Coherence of the memory path

Each memory command of an AFU takes effect at one moment between its arrival and its response, and the
memories are what these moments, in their order, make of them. What the AFU is told is what was there then.
-/

namespace Ocse

/-- A response that signals the success of a memory command. -/
def Response.Succeeds (r : Response) : Prop :=
  r.code = 0 ∧ (r.opcode = tlxRspReadResp ∨ r.opcode = tlxRspWriteResp)

/-- A use of the memories that leaves a byte of a client's as it is. -/
def MemOp.Spares (op : MemOp) (k a : ℕ) : Prop := ∀ p, ((op.apply p).1 k).memory a = (p k).memory a

namespace Dma

/-! ## Whole runs -/

section Run

variable {x : Dma} {start : ℕ → PslClient} {ops : List DmaOp} {op : DmaOp}

theorem init_inv (parms : Parms) (maxClients : ℕ) (afuEvent : AfuEvent) (process : ℕ → PslClient) :
    (init parms maxClients afuEvent process).Inv process where
  wf := Ocl.init_wf parms maxClients afuEvent
  valid := by simp [init, Ocl.AllValid, Ocl.init]
  out := by constructor <;> simp [init, Ocl.init]
  sane := fun e he => absurd he List.not_mem_nil
  distinct := by simp [init, Ocl.init]
  unused := fun _ _ => ⟨rfl, rfl⟩
  wired := by simp [init, Ocl.init]
  once := List.nodup_nil
  past := fun id hid => absurd hid List.not_mem_nil
  served := fun e he => absurd he List.not_mem_nil
  outcome := fun e he => absurd he List.not_mem_nil
  legal := rfl

theorem step_inv (h : x.Inv start) (hmeets : x.Meets op) : (x.step op).Inv start := by
  cases op with
  | engine a => exact h.engine hmeets
  | answer i => exact h.answer hmeets
  | serve k written stale => exact h.serve hmeets
  | store k addr data => exact h.store k addr data

theorem run_inv (h : x.Inv start) (hmeets : Along step Meets x ops) : (x.run ops).Inv start :=
  hmeets.invariant (Inv start) (fun _ _ hx hok => step_inv hx hok) h

end Run

/-! ## Responses -/

/-- The response belongs to a command whose request the client has carried out with success, and each byte that it
shows of the answer is in the answer's place: at the command's offset in a line of 64 bytes. -/
structure Tells (x : Dma) (r : Response) (k : ℕ) (e : CmdEvent) (data : List UInt8) : Prop where
  served : x.ServedAs k e (ocseMemSuccess :: data)
  afutag : e.afutag = r.afutag
  places : ∀ d, r.data = some d → ∀ j p, j < data.length → p < d.length →
    (r.dp &&& 3).toNat * 64 + p = e.offset + j → d[p]? = data[j]?

section Tells

variable {x : Dma} {start : ℕ → PslClient} {a : Action} {e : CmdEvent} {r : Response}

/-- Every response is that of an event of the list. -/
theorem responded_event (hr : .responded r ∈ x.ocl.news a) :
    ∃ e ∈ x.ocl.list, e.responding = true ∧ r = (e.prepare x.ocl.parms.hostClSize).response := by
  have hnone {obs : List Obs} (htrace : (x.ocl.step a).trace = x.ocl.trace ++ obs) (hnot : .responded r ∉ obs) :
      ∃ e ∈ x.ocl.list, e.responding = true ∧ r = (e.prepare x.ocl.parms.hostClSize).response := by
    rw [news_eq htrace] at hr
    exact absurd hr hnot
  cases step_effect x.ocl a with
  | respond e e' he hresp hc he' hsame =>
    rw [news_eq hsame.trace, List.mem_singleton] at hr
    exact ⟨e, he, hresp, Obs.responded.inj hr⟩
  | finish e he hdone hc hlast hsame =>
    have hnews : x.ocl.news a = [.responded (e.prepare x.ocl.parms.hostClSize).response, .removed e.afutag] :=
      news_eq hsame.trace
    rw [hnews] at hr
    refine ⟨e, he, by simp [CmdEvent.responding, hdone], ?_⟩
    simpa using hr
  | quiet hsame => exact hnone (hsame.trace.trans (List.append_nil _).symm) List.not_mem_nil
  | ignore cmd d ha hoffers hassign htag hsame => exact hnone hsame.trace (by simp)
  | assign cmd d ha hoffers i c hop hfind hc hsame => exact hnone hsame.trace (by simp)
  | add cmd d ha hoffers e c l₁ l₂ hop hfind hc hfresh hnew hlist hlist' hclient hnextId htrace hparms hmax =>
    exact hnone htrace (by simp)
  | rewrite e e' he hc hr' hsame => exact hnone (hsame.trace.trans (List.append_nil _).symm) List.not_mem_nil
  | ask e c c' bytes he hc hready hbytes hc' hsame => exact hnone hsame.trace (by simp)
  | raise e c c' he hc hraised hc' hsame => exact hnone hsame.trace (by simp)
  | refuse e he hresp hc hsame => exact hnone hsame.trace (by simp)
  | post e resp he hsent hc hsame => exact hnone hsame.trace (by simp)
  | answer i input ha e e' c ans he hc hne hmem he' hsame => exact hnone hsame.trace (by simp)
  | client i c c' hc hid hmem hcs hsame => exact hnone (hsame.trace.trans (List.append_nil _).symm) List.not_mem_nil
  | terminate i ha c hc hgone hsame => exact hnone hsame.trace (by simp)
  | clear i ha c hc hgone hidle hsame => exact hnone (hsame.trace.trans (List.append_nil _).symm) List.not_mem_nil
  | associate bdf i hi hc hlist hnextId hclient htrace hparms hmax => exact hnone htrace (by simp)

/-- An event that is answered with success is one that its client has carried out. -/
theorem concluded_of_succeeds (hsane : e.Sane) (hresp : e.responding = true) {cl : ℕ}
    (hr : (e.prepare cl).response.Succeeds) : e.Concluded := by
  obtain ⟨hcode, hop⟩ := hr
  have hopen : e.state ≠ .pendingSent := by
    intro hs
    simp [CmdEvent.responding, hs] at hresp
  have htype : e.type ≠ .failed := by
    intro htype
    rw [response_code_of_failed (by rw [e.prepare_type, htype]), e.prepare_resp] at hcode
    exact hsane.failed htype hopen hcode
  have hop' : e.respOpcode = tlxRspReadResp ∨ e.respOpcode = tlxRspWriteResp := by
    rw [← e.prepare_respOpcode cl]
    exact hop
  refine ⟨hsane.opcode htype hop', ?_⟩
  by_contra hdone
  have hpending : e.state = .xlatePending ∨ e.state = .intPending := by
    simpa [CmdEvent.responding, hdone] using hresp
  exact htype (hsane.pending (hpending.imp_right .inl))

theorem Inv.tells (h : x.Inv start) (hr : .responded r ∈ x.ocl.news a) (hsucceeds : r.Succeeds) :
    ∃ k e data, x.Tells r k e data := by
  obtain ⟨e, he, hresp, rfl⟩ := responded_event hr
  obtain ⟨k, e₀, data, hout⟩ := h.outcome e he (concluded_of_succeeds (h.sane e he) hresp hsucceeds)
  refine ⟨k, e₀, data, hout.served, ?_, ?_⟩
  · exact hout.deal.afutag.symm.trans (e.prepare_afutag _).symm
  · intro d hd j p hj hp hplace
    unfold CmdEvent.response at hd hplace
    dsimp only at hd hplace
    split_ifs at hd with hdata
    obtain rfl := Option.some.inj hd
    rw [List.getElem?_eq_getElem hp, List.getElem?_eq_getElem hj]
    have hbyte := Buffer.get_read (e.prepare x.ocl.parms.hostClSize).data
      (((e.prepare x.ocl.parms.hostClSize).respDp &&& 3).toNat * 64) _ p hp
    refine congrArg some (hbyte.trans ?_)
    rw [e.prepare_data, hout.deal.data, hplace]
    exact Buffer.write_at ..

end Tells

/-! ## Coherence -/

section Coherence

variable (parms : Parms) (maxClients : ℕ) (afuEvent : AfuEvent) (process : ℕ → PslClient)

variable {k : ℕ} {w r : CmdEvent} {written : Bool} {stale : ∀ n, Stale n} {p : ℕ → PslClient}

end Coherence

/-! ## A run to look at -/

instance (c : PslClient) (written : Bool) (e : CmdEvent) : Decidable (RequestAnswered c written e) := by
  unfold RequestAnswered
  cases e.type <;> infer_instance

instance Meets.decidable (x : Dma) : ∀ op, Decidable (x.Meets op)
  | .engine _ => inferInstanceAs (Decidable (_ ∧ _ ∧ _))
  | .serve k written _ =>
      decidable_of_iff ((x.step _).ocl.AllValid ∧ ∀ p ∈ pslRequest (x.down k), p.1.isMemory = true →
          ∀ e ∈ x.ocl.askedOf k, RequestAnswered (x.process k) written e)
        (and_congr_right fun _ => ⟨fun h request rest hp => h (request, rest) hp, fun h p hp => h p.1 p.2 hp⟩)
  | .answer _ | .store _ _ _ => inferInstanceAs (Decidable (_ ∧ True))

def turn (socket : Socket) : List DmaOp := ({ Turn.quiet with socket }.actions 1).map .engine

end Dma

end Ocse
