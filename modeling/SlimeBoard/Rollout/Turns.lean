import SlimeBoard.Rollout.Junqi

/-!
# The turns of a self-play game

With legal replies no turn fails. A turn of a dead seat records a skip; a turn of a
living seat sends one request, plays the reply by the rules and records it.
-/

namespace SlimeBoard

open Board

namespace Junqi

variable {s s' : Junqi}

/-! ## Recording -/

theorem record_record (g : Fin 2) (tokens tokens' mask mask' : List Nat) (probs probs' : List ℚ) (s : Junqi) :
    (s.record g tokens mask probs).record g tokens' mask' probs' =
      s.record g (tokens ++ tokens') (mask ++ mask') (probs ++ probs') := by
  unfold record
  rw [Junqi.mk.injEq]
  refine ⟨rfl, rfl, rfl, rfl, List.append_assoc .., rfl, ?_, rfl, rfl, ?_, rfl, rfl, rfl⟩
  · funext g'
    dsimp only
    split <;> simp
  · funext g'
    dsimp only
    split <;> simp

/-- The chosen token, then tokens nobody has chosen. -/
def recordChoice (g : Fin 2) (action : Nat) (tail : List Nat) (logprob : ℚ) (s : Junqi) : Junqi :=
  s.record g (action :: tail) (1 :: List.replicate tail.length 0) (logprob :: List.replicate tail.length 0)

theorem recordChoice_announce (g : Fin 2) (action : Nat) (tail ids : List Nat) (logprob : ℚ) (s : Junqi) :
    (s.recordChoice g action tail logprob).announce g ids = s.recordChoice g action (tail ++ ids) logprob := by
  unfold recordChoice announce
  rw [record_record]
  simp [List.replicate_append_replicate]

theorem recordAction_spec (g : Fin 2) {a resultId : Nat} (logprob : ℚ) (skip : resultId = 4 ↔ a = 5934)
    (small : a ≠ 5934 → resultId < 4) :
    ∃ tail, s.recordAction g (a + 151665) resultId logprob = .ok (s.recordChoice g (a + 151665) tail logprob) := by
  unfold recordAction
  by_cases passed : resultId = 4
  · obtain rfl := skip.1 passed
    rw [if_pos passed]
    exact ⟨[], rfl⟩
  · have bound := small (fun h => passed (skip.2 h))
    obtain ⟨result, found⟩ : ∃ result, pyIndex resultIds resultId = .ok result := by
      unfold pyIndex
      rw [List.getElem?_eq_getElem (show resultId < resultIds.length from bound)]
      exact ⟨_, rfl⟩
    rw [if_neg passed, found]
    exact ⟨[result], rfl⟩

theorem mapM_pyIndex {α : Type} {xs : List Nat} {index : α → Nat} (is : List α)
    (bound : ∀ i ∈ is, index i < xs.length) : ∃ ids, is.mapM (fun i => pyIndex xs (index i)) = .ok ids := by
  induction is with
  | nil => exact ⟨[], rfl⟩
  | cons i is ih =>
    obtain ⟨ids, run⟩ := ih fun j mem => bound j (List.mem_cons_of_mem _ mem)
    refine ⟨xs.get ⟨index i, bound i (List.mem_cons_self ..)⟩ :: ids, ?_⟩
    rw [List.mapM_cons]
    unfold pyIndex at run ⊢
    rw [List.getElem?_eq_getElem (bound i (List.mem_cons_self ..)), run]
    rfl

/-- The dead of an outcome join the set, and the end of the game is tested. -/
def bury (dead : List Player) (s : Junqi) : Junqi :=
  if dead ≠ [] then checkEnd { s with deadPlayersSet := dead ∪ s.deadPlayersSet } else s

theorem bury_eq (going : s.stopped = false) (dead : List Player) : s.bury dead = { s with
    deadPlayersSet := dead ∪ s.deadPlayersSet
    isComplete := s.isComplete || (decide (dead ≠ []) && ended (dead ∪ s.deadPlayersSet))
    stopped := decide (dead ≠ []) && ended (dead ∪ s.deadPlayersSet) } := by
  cases s
  unfold bury
  by_cases alive : dead = []
  · subst alive
    dsimp only at going
    subst going
    simp
  · rw [if_pos alive]
    unfold checkEnd
    dsimp only at going ⊢
    subst going
    split
    · rename_i finished
      simp [alive, finished]
    · rename_i on
      simp [on]

/-- Reporting succeeds if the flags exist. -/
theorem report_spec (g : Fin 2) (action : Nat) (tail : List Nat) (logprob : ℚ) {out : Outcome}
    (flags : ∀ f ∈ out.flags, f < 8) :
    ∃ tail', (s.recordChoice g action tail logprob).report g out =
      .ok ((s.recordChoice g action (tail ++ tail') logprob).bury out.deadPlayers) := by
  obtain ⟨ids, run⟩ : ∃ ids, (if out.flags ≠ [] then do
        let ids ← out.flags.mapM (pyIndex flagsIds)
        pure ((s.recordChoice g action tail logprob).announce g ids)
      else pure (s.recordChoice g action tail logprob)) =
      (.ok (s.recordChoice g action (tail ++ ids) logprob) : Py Junqi) := by
    by_cases quiet : out.flags = []
    · refine ⟨[], ?_⟩
      rw [if_neg (not_not.2 quiet), List.append_nil]
      rfl
    · obtain ⟨ids, found⟩ := @mapM_pyIndex Nat flagsIds id out.flags flags
      refine ⟨ids, ?_⟩
      rw [if_pos quiet]
      change (out.flags.mapM (pyIndex flagsIds)) = _ at found
      rw [found, Py.ok_bind, recordChoice_announce]
      rfl
  unfold report bury
  rw [run, Py.ok_bind]
  by_cases alive : out.deadPlayers = []
  · refine ⟨ids, ?_⟩
    rw [if_neg (not_not.2 alive), if_neg (not_not.2 alive)]
    rfl
  · obtain ⟨ids', found⟩ := @mapM_pyIndex Player deadIds Fin.val out.deadPlayers fun p _ => p.isLt
    refine ⟨ids ++ ids', ?_⟩
    rw [if_pos alive, if_pos alive, found, Py.ok_bind, recordChoice_announce, List.append_assoc]
    rfl

theorem mem_maskIds {mask : ActionMask} {token : Nat} :
    token ∈ maskIds mask ↔ ∃ a, a < 5935 ∧ mask a = true ∧ token = a + 151665 := by
  unfold maskIds
  simp only [List.mem_map, List.mem_filter, List.mem_range, and_assoc]
  exact exists_congr fun a => and_congr_right fun _ => and_congr_right fun _ => eq_comm

theorem skip_mem_maskIds {mask : ActionMask} (skip : mask 5934 = true) : 157599 ∈ maskIds mask := by
  refine mem_maskIds.2 ⟨5934, ?_, skip, ?_⟩
  · omega
  · omega

/-! ## One turn -/

/-- What holds between two turns. -/
structure Playing (s : Junqi) : Prop where
  inv : s.board.Inv
  dead : ∀ p, p ∈ s.deadPlayersSet ↔ p ∈ s.board.deadPlayers
  nodup : s.deadPlayersSet.Nodup
  flags : ∀ p, s.board.flagPos p < 8
  session : ∀ g rid, s.reqId g = some rid →
    s.idx g < s.buffer.length ∧ ∃ context outputIds, (s.sessions g).Remembers rid context outputIds 1

/-- A turn as board, session and engine see it: the board names the actions, the session
assembles the context, the engine chooses, and the board plays the choice. -/
structure Made (ord : RailOrder) (tokenizer : Option Tokenizer) (engine : Engine) (i : Nat) (b b' : Board)
    (session session' : Session) (e : Event) : Prop where
  player : e.player = Fin.ofNat 4 i
  updated : ∃ mask masked out, b.getActionMask ord e.player = .ok (some mask, masked) ∧
    e.request.logitsMask = maskIds mask ∧ masked.update ord e.player (e.action - 151665) = .ok (b', out) ∧
    e.reward = out.reward
  served : session.serve tokenizer e.request (engine.generate i e.request) = .ok (e.context, session')
  replied : ∃ rest, (engine.generate i e.request).outputIds = e.action :: rest

/-- A turn of a living seat: the request, the reply, what is played and what is recorded. -/
structure Live (ord : RailOrder) (tokenizer : Option Tokenizer) (engine : Engine) (s s' : Junqi) (i : Nat) (e : Event) :
    Prop extends Made ord tokenizer engine i s.board s'.board (s.sessions (group e.player))
      (s'.sessions (group e.player)) e where
  living : e.player ∉ s.deadPlayersSet
  asked : ∃ mask, s.board.Offers e.player mask ∧ e.request = s.request (group e.player) mask
  legal : e.action ∈ e.request.logitsMask
  buffer : e.buffer = s.buffer
  reqId : s'.reqId (group e.player) = some (engine.generate i e.request).id
  others : ∀ g, g ≠ group e.player → s'.sessions g = s.sessions g ∧ s'.reqId g = s.reqId g
  prompt : s'.prompt = s.prompt
  idx : s'.idx = Function.update s.idx (group e.player) s.buffer.length
  recorded : ∃ tail logprob, s'.buffer = s.buffer ++ e.action :: tail ∧
    s'.lossMask = (s.recordChoice (group e.player) e.action tail logprob).lossMask ∧
    s'.rolloutLogProbs = (s.recordChoice (group e.player) e.action tail logprob).rolloutLogProbs
  rewards : s'.rewardList = (s.credit (group e.player) e.reward).rewardList
  logits : s'.logitsMasks =
    Function.update s.logitsMasks (group e.player) (s.logitsMasks (group e.player) ++ [e.request.logitsMask])
  played : ∃ step, s.board.Acts e.player (e.action - 151665) step ∧ Step s.board s'.board step.1 ∧
    e.reward = step.2.reward ∧
    s'.deadPlayersSet = step.2.deadPlayers ∪ s.deadPlayersSet ∧
    (s'.stopped = true ↔ step.2.deadPlayers ≠ [] ∧ ended s'.deadPlayersSet = true) ∧
    s'.isComplete = (s.isComplete || s'.stopped)

variable {ord : RailOrder} {tokenizer : Option Tokenizer} {engine : Engine} {i : Nat}

theorem group_ofNat (i : Nat) : group (Fin.ofNat 4 i) = Fin.ofNat 2 i := by
  apply Fin.ext
  simp only [group, Fin.val_ofNat]
  omega

/-- A dead seat's turn records a skip. -/
theorem turn_dead (dead : Fin.ofNat 4 i ∈ s.deadPlayersSet) :
    turn ord tokenizer engine i s = .ok (s.record (Fin.ofNat 2 i) [157599] [0] [0], none) :=
  if_pos dead

theorem serve_spec (tokenizer : Option Tokenizer) (g : Fin 2) (playing : s.Playing) (mask : ActionMask) (reply : Reply) :
    ∃ context session, (s.sessions g).serve tokenizer (s.request g mask) reply = .ok (context, session) ∧
      session.Remembers reply.id context reply.outputIds 1 ∧
      (s.reqId g = none → context = s.prompt g ++ s.buffer.drop (s.idx g)) ∧
      ∀ rid, s.reqId g = some rid → ∀ context' outputIds, (s.sessions g).Remembers rid context' outputIds 1 →
        context = context' ++ outputIds.take 1 ++ Session.trimmed tokenizer (s.buffer.drop (s.idx g)) := by
  cases asked : s.reqId g with
  | none =>
    have ids : s.request g mask = ⟨s.prompt g ++ s.buffer.drop (s.idx g), none, maskIds mask⟩ := by
      rw [request, asked]
      rfl
    rw [ids]
    unfold Session.serve
    rw [Session.createReq_first, Py.ok_bind]
    refine ⟨_, _, rfl, Session.remembers_finish, fun _ => rfl, ?_⟩
    intro rid h
    cases h
  | some rid =>
    have ids : s.request g mask = ⟨s.buffer.drop (s.idx g), some rid, maskIds mask⟩ := by
      rw [request, asked]
      rfl
    obtain ⟨shorter, context, outputIds, remembers⟩ := playing.session g rid asked
    have nonempty : s.buffer.drop (s.idx g) ≠ [] := by
      rw [ne_eq, List.drop_eq_nil_iff]
      omega
    obtain ⟨heap, length, run⟩ := Session.createReq_append remembers reply.id nonempty 1
    rw [ids]
    unfold Session.serve
    rw [run, ← length]
    refine ⟨_, _, rfl, Session.remembers_finish, by simp, ?_⟩
    intro rid' same context' outputIds' remembers'
    rw [Option.some.injEq] at same
    subst same
    obtain ⟨heap', _, run'⟩ := Session.createReq_append remembers' reply.id nonempty 1
    have equal := run.symm.trans run'
    rw [Except.ok.injEq, Prod.mk.injEq, Req.mk.injEq] at equal
    exact equal.1.2.1

/-- The state after a token has been played with the verdict `v`. -/
def played (g : Fin 2) (board : Board) (session : Session) (rid token : Nat) (tail : List Nat) (logprob : ℚ)
    (row : List Nat) (v : Verdict) (s : Junqi) : Junqi :=
  let dead := v.deadPlayers ∪ s.deadPlayersSet
  let finished := decide (v.deadPlayers ≠ []) && ended dead
  { s.recordChoice g token tail logprob with
    board
    idx := Function.update s.idx g s.buffer.length
    sessions := Function.update s.sessions g session
    reqId := Function.update s.reqId g (some rid)
    rewardList := (s.credit g v.reward).rewardList
    logitsMasks := Function.update s.logitsMasks g (s.logitsMasks g ++ [row])
    deadPlayersSet := dead
    isComplete := s.isComplete || finished
    stopped := finished }

/-- What the turn writes down when the move has been made. -/
theorem recorded_spec (g : Fin 2) (board : Board) (session : Session) (rid : Nat) {a : Nat} (logprob : ℚ)
    (row : List Nat) (v : Verdict) (path : List Pos) (going : s.stopped = false) (flags : ∀ f ∈ v.flags, f < 8)
    (skip : v.result = 4 ↔ a = 5934) (small : a ≠ 5934 → v.result < 4) (e : Event) :
    ∃ tail, (do
      let s : Junqi := { s with
        board
        idx := Function.update s.idx g s.buffer.length
        sessions := Function.update s.sessions g session
        reqId := Function.update s.reqId g (some rid) }
      let s ← s.recordAction g (a + 151665) v.result logprob
      let s := s.credit g v.reward
      let s := { s with logitsMasks := Function.update s.logitsMasks g (s.logitsMasks g ++ [row]) }
      let s ← s.report g (v.outcome path)
      return (s, some e) : Py (Junqi × Option Event)) =
        .ok (s.played g board session rid (a + 151665) tail logprob row v, some e) := by
  let s₁ : Junqi := { s with
    board
    idx := Function.update s.idx g s.buffer.length
    sessions := Function.update s.sessions g session
    reqId := Function.update s.reqId g (some rid) }
  obtain ⟨tail, chosen⟩ := @recordAction_spec s₁ g a v.result logprob skip small
  let s₂ : Junqi := { s₁ with
    rewardList := (s.credit g v.reward).rewardList
    logitsMasks := Function.update s.logitsMasks g (s.logitsMasks g ++ [row]) }
  obtain ⟨tail', reported⟩ := @report_spec s₂ g (a + 151665) tail logprob (v.outcome path) flags
  rw [@bury_eq (s₂.recordChoice g (a + 151665) (tail ++ tail') logprob) going] at reported
  refine ⟨tail ++ tail', ?_⟩
  dsimp only
  rw [chosen, Py.ok_bind]
  exact (congrArg (· >>= _) reported).trans rfl

/-- **A turn of a living seat succeeds** with every legal reply. -/
theorem turn_run (ord : RailOrder) (tokenizer : Option Tokenizer) (engine : Engine) (playing : s.Playing)
    (going : s.stopped = false) (living : Fin.ofNat 4 i ∉ s.deadPlayersSet) :
    ∃ mask masked a rest context session board path step tail,
      let g := Fin.ofNat 2 i
      let request := s.request g mask
      let reply := engine.generate i request
      s.board.getActionMask ord (Fin.ofNat 4 i) = .ok (some mask, masked) ∧
      masked.update ord (Fin.ofNat 4 i) a = .ok (board, step.2.outcome path) ∧
      s.board.Offers (Fin.ofNat 4 i) mask ∧ a + 151665 ∈ request.logitsMask ∧ mask a = true ∧
      reply.outputIds = (a + 151665) :: rest ∧
      (s.sessions g).serve tokenizer request reply = .ok (context, session) ∧
      session.Remembers reply.id context reply.outputIds 1 ∧
      s.board.Acts (Fin.ofNat 4 i) a step ∧ Step s.board board step.1 ∧
      turn ord tokenizer engine i s =
        .ok (s.played g board session reply.id (a + 151665) tail reply.logprob request.logitsMask step.2,
          some ⟨Fin.ofNat 4 i, request, context, s.buffer, a + 151665, step.2.reward⟩) := by
  have alive : Fin.ofNat 4 i ∉ s.board.deadPlayers := fun h => living ((playing.dead _).2 h)
  obtain ⟨M, I, mask, asked, offered, inv⟩ := ask_spec ord playing.inv alive
  have row : (s.request (Fin.ofNat 2 i) mask).logitsMask = maskIds mask := rfl
  have skip : 157599 ∈ maskIds mask := skip_mem_maskIds ((offered _).2 (Or.inl rfl))
  obtain ⟨token, rest, output, legal⟩ := engine.legal i _ (row ▸ List.ne_nil_of_mem skip)
  obtain ⟨a, bound, allowed, rfl⟩ := mem_maskIds.1 legal
  obtain ⟨context, session, served, remembers, _⟩ :=
    serve_spec tokenizer (Fin.ofNat 2 i) playing mask (engine.generate i (s.request (Fin.ofNat 2 i) mask))
  obtain ⟨board, path, step, played, done, acts⟩ := play_spec ord inv offered allowed
  obtain ⟨_, _, flags, passed, small⟩ := acts.announces
  have flags' : ∀ f ∈ step.2.flags, f < 8 := by
    intro f mem
    obtain ⟨p, rfl⟩ := flags f mem
    exact playing.flags p
  obtain ⟨tail, recorded⟩ := recorded_spec (Fin.ofNat 2 i) board session
    (engine.generate i (s.request (Fin.ofNat 2 i) mask)).id
    (engine.generate i (s.request (Fin.ofNat 2 i) mask)).logprob (maskIds mask) step.2 path going flags' passed small
    ⟨Fin.ofNat 4 i, s.request (Fin.ofNat 2 i) mask, context, s.buffer, a + 151665, step.2.reward⟩
  refine ⟨mask, _, a, rest, context, session, board, path, step, tail, asked, played, offered, legal, allowed, output,
    served, remembers, acts.unmasked,
    ⟨done.game, done.linked, done.layout, done.action2piece, done.piece2action, done.engineerPieces, done.masked⟩, ?_⟩
  have head : pyIndex (engine.generate i (s.request (Fin.ofNat 2 i) mask)).outputIds 0 = .ok (a + 151665) := by
    rw [output]
    rfl
  unfold turn
  dsimp only
  rw [if_neg living, asked, Py.ok_bind]
  dsimp only
  rw [served, Py.ok_bind]
  dsimp only
  rw [head, Py.ok_bind, Nat.add_sub_cancel, played, Py.ok_bind]
  exact recorded

/-- **A turn of a living seat** is a `Live` one, and the invariant is kept. -/
theorem turn_live (ord : RailOrder) (tokenizer : Option Tokenizer) (engine : Engine) (playing : s.Playing)
    (going : s.stopped = false) (living : Fin.ofNat 4 i ∉ s.deadPlayersSet) :
    ∃ s' e, turn ord tokenizer engine i s = .ok (s', some e) ∧ Live ord tokenizer engine s s' i e ∧ s'.Playing := by
  obtain ⟨mask, masked, a, rest, context, session, board, path, step, tail, asked, update, offered, legal, _, output,
    served, remembers, acts, done, run⟩ := turn_run ord tokenizer engine playing going living
  have alive : Fin.ofNat 4 i ∉ s.board.deadPlayers := fun h => living ((playing.dead _).2 h)
  obtain ⟨dead, flagPos, _⟩ := acts.announces
  have seat := group_ofNat i
  refine ⟨_, _, run, ?_, ?_⟩
  · refine ⟨⟨rfl, ⟨mask, masked, step.2.outcome path, asked, rfl, ?_, rfl⟩, ?_, ⟨rest, output⟩⟩, living,
      ⟨mask, offered, by rw [seat]⟩, legal, rfl, ?_, ?_, rfl,
      by rw [seat]; rfl, ⟨tail, _, rfl, by rw [seat]; rfl, by rw [seat]; rfl⟩, by rw [seat]; rfl, by rw [seat]; rfl,
      ⟨step, ?_, done, rfl, rfl, ?_, rfl⟩⟩
    · rw [Nat.add_sub_cancel]
      exact update
    · rw [seat, served]
      show _ = Except.ok (context, Function.update s.sessions (Fin.ofNat 2 i) session (Fin.ofNat 2 i))
      rw [Function.update_self]
    · rw [seat]
      exact Function.update_self ..
    · intro g other
      rw [seat] at other
      exact ⟨Function.update_of_ne other .., Function.update_of_ne other ..⟩
    · rw [Nat.add_sub_cancel]
      exact acts
    · simp [played]
  · refine ⟨done.inv playing.inv (acts.sound playing.inv alive), ?_, playing.nodup.union _, ?_, ?_⟩
    · intro p
      have died : p ∈ board.deadPlayers ↔ p ∈ step.1.dead := by
        rw [← congrArg Game.dead done.game]
        exact List.mem_toFinset.symm
      show p ∈ step.2.deadPlayers ∪ s.deadPlayersSet ↔ p ∈ board.deadPlayers
      rw [died, dead, List.mem_union_iff, Finset.mem_union, List.mem_toFinset, playing.dead p, or_comm]
      exact or_congr_left List.mem_toFinset.symm
    · intro p
      have same : board.flagPos = s.board.flagPos := (congrArg Game.flagPos done.game).trans flagPos
      show board.flagPos p < 8
      rw [same]
      exact playing.flags p
    · intro g rid asked
      have longer : (s.buffer ++ (a + 151665) :: tail).length = s.buffer.length + tail.length + 1 := by
        rw [List.length_append, List.length_cons]
        omega
      change Function.update s.reqId (Fin.ofNat 2 i) _ g = some rid at asked
      show Function.update s.idx (Fin.ofNat 2 i) _ g < (s.buffer ++ (a + 151665) :: tail).length ∧
        ∃ context outputIds, (Function.update s.sessions (Fin.ofNat 2 i) session g).Remembers rid context outputIds 1
      by_cases own : g = Fin.ofNat 2 i
      · subst own
        rw [Function.update_self, Option.some.injEq] at asked
        rw [Function.update_self, Function.update_self, longer, ← asked]
        exact ⟨by omega, context, _, remembers⟩
      · rw [Function.update_of_ne own] at asked
        rw [Function.update_of_ne own, Function.update_of_ne own, longer]
        obtain ⟨before, known⟩ := playing.session g rid asked
        exact ⟨by omega, known⟩

/-! ## Whole games -/

/-- What one turn of the loop does to the state and the events. -/
inductive Turn (ord : RailOrder) (tokenizer : Option Tokenizer) (engine : Engine) (i : Nat) :
    Junqi → List Event → Junqi → List Event → Prop where
  | finished {s : Junqi} {es : List Event} : s.stopped = true → Turn ord tokenizer engine i s es s es
  | dead {s : Junqi} {es : List Event} : s.stopped = false → Fin.ofNat 4 i ∈ s.deadPlayersSet →
      Turn ord tokenizer engine i s es (s.record (Fin.ofNat 2 i) [157599] [0] [0]) es
  | live {s s' : Junqi} {es : List Event} {e : Event} : s.stopped = false → Live ord tokenizer engine s s' i e →
      Turn ord tokenizer engine i s es s' (es ++ [e])

/-- The seats move in turn from the first board on: a dead seat has no event, and the event of
a living one is what board, session and engine made of its turn. -/
inductive Told (ord : RailOrder) (tokenizer : Option Tokenizer) (engine : Engine) (b₀ : Board) :
    Nat → Board → (Fin 2 → Session) → List Event → Prop where
  | start : Told ord tokenizer engine b₀ 0 b₀ (fun _ => .empty) []
  | dead {k : Nat} {b : Board} {sessions : Fin 2 → Session} {es : List Event} :
      Told ord tokenizer engine b₀ k b sessions es → Fin.ofNat 4 k ∈ b.deadPlayers →
      Told ord tokenizer engine b₀ (k + 1) b sessions es
  | live {k : Nat} {b b' : Board} {sessions : Fin 2 → Session} {session : Session} {es : List Event} {e : Event} :
      Told ord tokenizer engine b₀ k b sessions es → e.player ∉ b.deadPlayers →
      Made ord tokenizer engine k b b' (sessions (group e.player)) session e →
      Told ord tokenizer engine b₀ (k + 1) b' (Function.update sessions (group e.player) session) (es ++ [e])

/-- What is told after `i` turns of the loop. -/
structure Telling (ord : RailOrder) (tokenizer : Option Tokenizer) (engine : Engine) (b₀ : Board) (i : Nat) (s : Junqi)
    (es : List Event) : Prop where
  told : ∃ k, k ≤ i ∧ (s.stopped = false → k = i) ∧ Told ord tokenizer engine b₀ k s.board s.sessions es
  ended : s.stopped = true → ended s.deadPlayersSet = true

/-- **Every turn is told.** -/
theorem Telling.turn {b₀ : Board} {es es' : List Event} (playing : s.Playing)
    (telling : Telling ord tokenizer engine b₀ i s es) (turn : Turn ord tokenizer engine i s es s' es') :
    Telling ord tokenizer engine b₀ (i + 1) s' es' := by
  obtain ⟨⟨k, early, going, told⟩, ended⟩ := telling
  cases turn with
  | finished finished =>
    refine ⟨⟨k, by omega, ?_, told⟩, ended⟩
    intro going
    exact absurd (finished.symm.trans going) (by decide)
  | dead on dead =>
    obtain rfl := going on
    exact ⟨⟨k + 1, le_rfl, fun _ => rfl, told.dead ((playing.dead _).1 dead)⟩, ended⟩
  | live on live =>
    rename_i e
    obtain rfl := going on
    have living : e.player ∉ s.board.deadPlayers := fun dead => live.living ((playing.dead _).2 dead)
    have sessions : s'.sessions = Function.update s.sessions (group e.player) (s'.sessions (group e.player)) := by
      funext g
      by_cases mine : g = group e.player
      · rw [mine, Function.update_self]
      · rw [Function.update_of_ne mine, (live.others g mine).1]
    refine ⟨⟨k + 1, le_rfl, fun _ => rfl, ?_⟩, ?_⟩
    · rw [sessions]
      exact told.live living live.toMade
    · intro finished
      obtain ⟨step, -, -, -, -, stopped, -⟩ := live.played
      exact (stopped.1 finished).2

theorem step_spec (ord : RailOrder) (tokenizer : Option Tokenizer) (engine : Engine) (playing : s.Playing)
    (es : List Event) (i : Nat) :
    ∃ s' es', step ord tokenizer engine (s, es) i = .ok (s', es') ∧ Turn ord tokenizer engine i s es s' es' ∧ s'.Playing := by
  unfold step
  dsimp only
  by_cases finished : s.stopped = true
  · rw [if_pos finished]
    exact ⟨s, es, rfl, .finished finished, playing⟩
  · rw [if_neg finished]
    rw [Bool.not_eq_true] at finished
    by_cases dead : Fin.ofNat 4 i ∈ s.deadPlayersSet
    · rw [turn_dead dead, Py.ok_bind]
      refine ⟨_, _, rfl, ?_, playing.inv, playing.dead, playing.nodup, playing.flags, ?_⟩
      · rw [Option.toList_none, List.append_nil]
        exact .dead finished dead
      · intro g rid asked
        obtain ⟨before, known⟩ := playing.session g rid asked
        refine ⟨?_, known⟩
        show s.idx g < (s.buffer ++ [157599]).length
        rw [List.length_append, List.length_singleton]
        omega
    · obtain ⟨s', e, run, live, playing'⟩ := turn_live ord tokenizer engine playing finished dead
      rw [run, Py.ok_bind]
      exact ⟨s', es ++ [e], rfl, .live finished live, playing'⟩

theorem run_succ (ord : RailOrder) (tokenizer : Option Tokenizer) (engine : Engine) (s : Junqi) (k : Nat) :
    run ord tokenizer engine s (k + 1) = run ord tokenizer engine s k >>= fun st => step ord tokenizer engine st k := by
  unfold run
  rw [List.range_succ, List.foldlM_append]
  refine congrArg _ (funext fun st => ?_)
  rw [List.foldlM_cons]
  cases step ord tokenizer engine st k <;> rfl

/-- **A game never fails, and what every turn keeps holds throughout.** -/
theorem run_induction (ord : RailOrder) (tokenizer : Option Tokenizer) (engine : Engine) {s₀ : Junqi}
    (playing : s₀.Playing) {P : Nat → Junqi → List Event → Prop} (start : P 0 s₀ [])
    (keeps : ∀ i s es s' es', s.Playing → P i s es → Turn ord tokenizer engine i s es s' es' → P (i + 1) s' es') (k : Nat) :
    ∃ s es, run ord tokenizer engine s₀ k = .ok (s, es) ∧ s.Playing ∧ P k s es := by
  induction k with
  | zero => exact ⟨s₀, [], rfl, playing, start⟩
  | succ k ih =>
    obtain ⟨s, es, reached, playing, holds⟩ := ih
    obtain ⟨s', es', run, turn, playing'⟩ := step_spec ord tokenizer engine playing es k
    refine ⟨s', es', ?_, playing', keeps k s es s' es' playing holds turn⟩
    rw [run_succ, reached, Py.ok_bind, run]

theorem start_playing {layout : Player → List Role} {b : Board} (starts : Starts layout b) (encode : String → List Nat) :
    (start encode b).Playing := by
  refine ⟨starts.inv, ?_, List.nodup_nil, ?_, ?_⟩
  · intro p
    show p ∈ [] ↔ p ∈ b.deadPlayers
    rw [starts.dead]
  · intro p
    have := p.isLt
    show b.flagPos p < 8
    rw [starts.flagPos]
    split <;> omega
  · intro g rid asked
    cases asked

/-- **The events tell the game** that the seats play: it begins with the first board of the
layouts and is left after 400 turns, or when the dead end it. -/
def Tells (ord : RailOrder) (tokenizer : Option Tokenizer) (engine : Engine) (layout : Player → List Role)
    (events : List Event) : Prop :=
  ∃ b₀ k b sessions dead, Board.new layout = .ok b₀ ∧ Told ord tokenizer engine b₀ k b sessions events ∧
    (∀ p, p ∈ dead ↔ p ∈ b.deadPlayers) ∧ dead.Nodup ∧ (k = 400 ∨ k ≤ 400 ∧ ended dead = true)

theorem Telling.tells {layout : Player → List Role} {b₀ : Board} {es : List Event} (new : Board.new layout = .ok b₀)
    (playing : s.Playing) (telling : Telling ord tokenizer engine b₀ 400 s es) :
    Tells ord tokenizer engine layout es := by
  obtain ⟨⟨k, early, going, told⟩, ended⟩ := telling
  refine ⟨b₀, k, s.board, s.sessions, s.deadPlayersSet, new, told, playing.dead, playing.nodup, ?_⟩
  by_cases finished : s.stopped = true
  · exact Or.inr ⟨early, ended finished⟩
  · rw [Bool.not_eq_true] at finished
    exact Or.inl (going finished)

end Junqi

open Junqi

/-- **`generate_junqi` never fails** on generated layouts; its events tell the game, and it
returns what every turn keeps. -/
theorem game_induction (ord : RailOrder) (tokenizer : Option Tokenizer) (encode : String → List Nat) (engine : Engine)
    {layout : Player → List Role} (generates : ∀ p, Generates (layout p)) {P : Nat → Junqi → List Event → Prop}
    (start : ∀ b, Starts layout b → P 0 (.start encode b) [])
    (keeps : ∀ i s es s' es', s.Playing → P i s es → Turn ord tokenizer engine i s es s' es' → P (i + 1) s' es') :
    ∃ s es, generateJunqi ord tokenizer encode engine layout = .ok (s.sample, es) ∧
      Tells ord tokenizer engine layout es ∧ P 400 s es := by
  obtain ⟨b, new, starts⟩ := new_spec fun p => (generates p).proper
  have first : Telling ord tokenizer engine b 0 (.start encode b) [] :=
    ⟨⟨0, le_rfl, fun _ => rfl, .start⟩, fun finished => by cases finished⟩
  obtain ⟨s, es, run, playing, telling, holds⟩ := run_induction ord tokenizer engine (start_playing starts encode)
    (P := fun i s es => Telling ord tokenizer engine b i s es ∧ P i s es) ⟨first, start b starts⟩
    (fun i s es s' es' playing both turn =>
      ⟨both.1.turn playing turn, keeps i s es s' es' playing both.2 turn⟩) 400
  refine ⟨s, es, ?_, telling.tells new playing, holds⟩
  rw [generateJunqi, new, Py.ok_bind, run]
  rfl

end SlimeBoard
