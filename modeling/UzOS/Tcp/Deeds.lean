import UzOS.Tcp.Fit

/-! What the program and the timers do to a connection themselves. With the
moves of sending and receiving they make up every turn. -/
namespace UzOS.Tcp

theorem Fit.of_listen {t : Tx} (room : t.sndLen ≤ tcpBufSize)
    (wanted : t.finSent → t.finWanted) : Fit .listen t where
  room := room
  wanted := wanted
  opening := nofun
  flight := nofun
  fin := nofun
  early := fun e => by rcases e with e | e <;> cases e
  drained := nofun

variable {a b c : Conn}

/-- A timer that runs when our FIN is acknowledged would take the FIN back. -/
theorem Deed.fit {new shut : Prop} {now : U32} (h : Deed new shut now a b) (fit : Fit a.state a.tx)
    (busy : a.timers.rtxAt ≠ 0 → a.state.drained = false) : Fit b.state b.tx := by
  cases h with
  | bound | given | released | counted | retried | read => exact fit
  | listens => exact .of_listen fit.room fit.wanted
  | opens => exact .of_opening rfl fit.room fit.wanted ⟨rfl, rfl⟩
  | armed =>
    obtain ⟨state, tx, -⟩ := armTimer_same now a
    rw [state, tx]
    exact fit
  | enqueued bytes state wanted fits =>
    have outputs : a.state.outputs := by rcases state with e | e <;> rw [e] <;> rfl
    have waits : a.tx.finSent = false := by
      cases sent : a.tx.finSent with
      | false => rfl
      | true => cases wanted.symm.trans (fit.wanted sent)
    refine .of_outputs outputs fits fit.wanted (fun _ => ?_) (fun sent => ?_) fun _ sent => ?_
    · exact le_trans (fit.flight outputs waits) (Nat.le_add_right _ _)
    · cases waits.symm.trans sent
    · cases waits.symm.trans sent
  | wantsFin => exact { fit with wanted := fun _ => rfl }
  | wentBack n due open_ =>
    have none : (a.tx.sndUna - a.tx.sndUna).toNat ≤ a.tx.sndLen := by simp
    exact {
      room := fit.room
      wanted := nofun
      opening := fun e => by cases open_.symm.trans e
      flight := fun _ _ => none
      fin := nofun
      early := nofun
      drained := fun e => by cases (busy due).symm.trans e }

/-- One step of a turn. -/
inductive Step (new shut : Prop) (now : U32) : Conn → Conn → Prop where
  | move {a b : Conn} (h : Move True shut now a b) : Step new shut now a b
  | deed {a b : Conn} (h : Deed new shut now a b) : Step new shut now a b

def Steps (new shut : Prop) (now : U32) : Conn → Conn → Prop :=
  Relation.ReflTransGen (Step new shut now)

variable {new shut : Prop} {now : U32}

theorem Steps.refl (c : Conn) : Steps new shut now c c := Relation.ReflTransGen.refl

section
variable (h : Steps new shut now a b)
include h

theorem Steps.then (k : Step new shut now b c) :
    Steps new shut now a c := Relation.ReflTransGen.tail h k

theorem Steps.deed (k : Deed new shut now b c) : Steps new shut now a c := h.then (.deed k)

theorem Steps.move (k : Move True shut now b c) : Steps new shut now a c := h.then (.move k)

theorem Steps.moves (k : Moves True shut now b c) : Steps new shut now a c := by
  induction k with
  | refl => exact h
  | tail _ move ih => exact ih.move move

/-- What one step keeps every turn keeps. -/
theorem Steps.keeps {P : Conn → Prop} (start : P a)
    (one : ∀ {a b}, Step new shut now a b → P a → P b) : P b := by
  induction h with
  | refl => exact start
  | tail _ step ih => exact one step ih

end

/-! Each call is a chain of steps, wherever it is interrupted. -/

section
variable {env : Conn → Conn → Prop} (meets : Meets True shut now env) (calm : ∀ c, env c c)
  {start : Conn}
include meets

theorem tcpOutputTalk_steps (moved : Steps new shut now start c) :
    (tcpOutputTalk now c).Safe env (Steps new shut now start) (Steps new shut now start) :=
  (tcpOutputTalk_moves meets (.refl c)).imp (fun _ => moved.moves) fun _ => moved.moves

include calm

theorem tell_steps {r : Reply} (moved : Steps new shut now start r.conn) :
    (r.tell .done).Safe env (Steps new shut now start) (Steps new shut now start) :=
  tell_safe calm moved fun _ reached => moved.moves (meets.moves reached)

theorem tcpFree_steps (moved : Steps new shut now start c) :
    ((tcpFree c).tell .done).Safe env (Steps new shut now start) (Steps new shut now start) :=
  tell_steps meets calm (moved.move (.freed c))

theorem Script.steps {free dials : Prop} {t : Dialog} (h : Script free dials new shut now c t)
    (late : ∀ a b, dials → a.state = .synSent → (new → a.tx.finWanted = false ∧ a.tx.finSent = false) →
      env a b → b.state.drained = false ∧ (b.state = .synSent ∨ shut))
    (moved : Steps new shut now start c) :
    t.Safe env (Steps new shut now start) (Steps new shut now start) := by
  induction h with
  | done => exact moved
  | moved _ deed _ _ _ _ ih => exact ih (moved.deed deed)
  | listens _ deed => exact moved.deed deed
  | @opens a src ip port isn dial used state first =>
    have opened := moved.deed (.opens a src ip port isn used state first)
    have sent := opened.move (send_moves _ tcpSyn isn [])
    -- the SYN's answer may be there before the timer is armed
    refine tell_safe calm sent fun e reached => ?_
    have wanted (n : new) : a.tx.finWanted = false ∧ a.tx.finSent = false :=
      ⟨(first n).finWanted, (first n).finSent⟩
    obtain ⟨open_, due⟩ := late _ e dial (by rfl) (by exact wanted) reached
    exact (sent.moves (meets.moves reached)).deed (.armed e open_ due)
  | writes _ deed => exact tcpOutputTalk_steps meets (moved.deed deed)
  | hears _ a => exact moved.moves (hear_moves _ a fun _ => trivial)
  | leaves =>
    exact ⟨moved, fun _ reached => tcpFree_steps meets calm (moved.moves (meets.moves reached))⟩
  | released _ ih => exact ih (moved.deed (.released _))
  | counted retries probes _ ih => exact ih (moved.deed (.counted _ retries probes))
  | retried n due _ ih => exact ih (moved.deed (.retried _ n due))
  | finishes state => exact tcpOutputTalk_steps meets (moved.deed (.wantsFin _ state))
  | goesBack n due open_ => exact tcpOutputTalk_steps meets (moved.deed (.wentBack _ n due open_))
  | sent => exact tell_steps meets calm (moved.move (send_moves _ _ _ _))
  | aborts c =>
    have sent := moved.move (send_moves c (tcpRst ||| tcpAck) c.tx.sndNxt [])
    exact tell_safe calm sent fun _ reached =>
      tcpFree_steps meets calm (sent.moves (meets.moves reached))
  | freed => exact tcpFree_steps meets calm moved
  | ended c error => exact tell_steps meets calm (moved.move (.ended c error trivial))

end

/-- A turn of a connection in use is a chain of steps, whatever is drained in it. -/
theorem dialog_steps {env : Conn → Conn → Prop} (meets : Meets True shut now env)
    (calm : ∀ c, env c c) (used : c.used) (act : Act)
    (first : new → c.state = .closed → Fresh c)
    (late : ∀ a b, act.connects → a.state = .synSent →
      (new → a.tx.finWanted = false ∧ a.tx.finSent = false) → env a b →
        b.state.drained = false ∧ (b.state = .synSent ∨ shut)) :
    (act.dialog now c).Safe env (Steps new shut now c) (Steps new shut now c) :=
  (dialog_script used act first).steps meets calm late (.refl c)

end UzOS.Tcp
