import ClassfileTypes.Proofs.Reference
import ClassfileTypes.Proofs.Sweeps

/-!
# A registry is a map to the values registered last

What a run with a registry shows of values is what the reference shows. The two agree on
the values that are alive; the registry may have lost the dead ones, and no dead value
comes back to life, as a new one has a new identity.
-/

namespace ClassfileTypes.Intern

/-! ## The simulation -/

/-- The registry finds what the reference knows, of the values that are alive while
`kept` is. All values that either knows of, and all that are held, are older than the next
identity. -/
structure Simulates (kept : List Object) (h : Holders) (s : Reference) : Prop where
  places : h.toPlaces = s.toPlaces
  enabled : h.registry.enabled = s.enabled
  distinct : ∀ kind, (h.registry.table kind).KeysDistinct
  find : ∀ kind key, (h.registry.table kind).find? (h.aliveWith kept) key =
    (s.last kind key).filter (h.aliveWith kept)
  older : ∀ kind, ∀ e ∈ (h.registry.table kind).entries, e.2.identity < h.next
  lastOlder : ∀ kind key o, s.last kind key = some o → o.identity < h.next
  aliveOlder : ∀ o, h.aliveWith kept o = true → o.identity < h.next

namespace Simulates

variable {kept kept' : List Object} {h : Holders} {s : Reference} {kind key content : String}
  {o candidate : Object}

theorem find_eq (hsim : Simulates kept h s) :
    (h.registry.table kind).find? (h.aliveWith kept) key = s.current? kept kind key := by
  rw [hsim.find, hsim.places]
  rfl

/-- The same is found while other values are held that are alive anyway, or newer. -/
theorem find_eq_of_kept (hsim : Simulates [] h s)
    (hkept : ∀ o ∈ kept, h.alive o = true ∨ h.next ≤ o.identity) :
    (h.registry.table kind).find? (h.aliveWith kept) key = s.current? [] kind key := by
  rw [← hsim.find_eq, Places.aliveWith_nil]
  apply Option.ext
  intro o
  simp only [Table.find?, Option.filter_eq_some_iff]
  refine and_congr_right fun hlookup => ?_
  rw [Places.aliveWith_eq_alive hkept (hsim.older kind _ (mem_of_lookup_eq_some hlookup))]

theorem find?_eq_of_kept (hsim : Simulates [] h s)
    (hkept : ∀ o ∈ kept, h.alive o = true ∨ h.next ≤ o.identity) :
    h.registry.find? (h.aliveWith kept) kind key = s.find? kind key := by
  rw [Registry.find?, Reference.find?, hsim.enabled, hsim.find_eq_of_kept hkept]

theorem find?_eq (hsim : Simulates [] h s) :
    h.registry.find? h.alive kind key = s.find? kind key := by
  rw [← Places.aliveWith_nil]
  exact hsim.find?_eq_of_kept fun o ho => absurd ho List.not_mem_nil

theorem new (config : Config) :
    Simulates [] (Holders.new config) (Reference.new config.enabled) where
  places := rfl
  enabled := rfl
  distinct _ := Table.keysDistinct_empty
  find _ _ := rfl
  older _ _ he := absurd he List.not_mem_nil
  lastOlder _ _ _ ho := nomatch ho
  aliveOlder _ ho := nomatch ho

/-- Values may die, and new ones may be kept: no old value comes back to life. -/
theorem recast (hsim : Simulates kept h s) {p : Places} (hnext : h.next ≤ p.next)
    (halive : ∀ o, p.aliveWith kept' o = true →
      h.aliveWith kept o = true ∨ h.next ≤ o.identity ∧ o.identity < p.next) :
    Simulates kept' (h.withPlaces p) (s.withPlaces p) where
  places := rfl
  enabled := hsim.enabled
  distinct := hsim.distinct
  find kind key := by
    have hboth : ∀ x : Option Object, (∀ o, x = some o → o.identity < h.next) →
        (x.filter (h.aliveWith kept)).filter (p.aliveWith kept') =
          x.filter (p.aliveWith kept') := by
      intro x hx
      apply Option.ext
      intro o
      simp only [Option.filter_eq_some_iff]
      refine ⟨fun ⟨⟨ho, _⟩, hp⟩ => ⟨ho, hp⟩, fun ⟨ho, hp⟩ => ⟨⟨ho, ?_⟩, hp⟩⟩
      exact (halive o hp).resolve_right fun hnew => Nat.not_lt.mpr hnew.1 (hx o ho)
    have hfind := congrArg (Option.filter (p.aliveWith kept')) (hsim.find kind key)
    rw [hboth _ (hsim.lastOlder kind key)] at hfind
    refine (hboth _ fun o ho => ?_).symm.trans hfind
    exact hsim.older kind _ (mem_of_lookup_eq_some ho)
  older kind e he := Nat.lt_of_lt_of_le (hsim.older kind e he) hnext
  lastOlder kind key o ho := Nat.lt_of_lt_of_le (hsim.lastOlder kind key o ho) hnext
  aliveOlder o ho := by
    rcases halive o ho with hold | hnew
    · exact Nat.lt_of_lt_of_le (hsim.aliveOlder o hold) hnext
    · exact hnew.2

/-- Other values may be kept, if they are alive anyway. -/
theorem narrow (hsim : Simulates kept h s)
    (halive : ∀ o, h.aliveWith kept' o = true → h.aliveWith kept o = true) :
    Simulates kept' h s := by
  have hsame : s.withPlaces h.toPlaces = s := by
    rw [hsim.places]
    rfl
  have hnarrow := hsim.recast (p := h.toPlaces) (Nat.le_refl _) fun o ho => Or.inl (halive o ho)
  rw [hsame] at hnarrow
  exact hnarrow

/-- A value that is alive may be kept. -/
theorem keep (hsim : Simulates kept h s) (ho : h.aliveWith kept o = true) :
    Simulates (o :: kept) h s := by
  refine hsim.narrow fun o' halive => ?_
  rw [Places.aliveWith_cons] at halive
  rcases Bool.or_eq_true_iff.mp halive with hid | halive
  · rw [← Places.aliveWith_congr (beq_iff_eq.mp hid)]
    exact ho
  · exact halive

/-- A new value may be kept. -/
theorem fresh (hsim : Simulates kept h s) (kind content : String) :
    Simulates (⟨h.next, kind, content⟩ :: kept) { h with next := h.next + 1 }
      { s with next := s.next + 1 } := by
  rw [← hsim.places]
  refine hsim.recast (p := { h.toPlaces with next := h.next + 1 }) (Nat.le_succ _) ?_
  intro o halive
  by_cases hid : h.next = o.identity
  · exact Or.inr ⟨Nat.le_of_eq hid, hid ▸ Nat.lt_succ_self _⟩
  · rw [Places.aliveWith_cons_of_ne hid] at halive
    exact Or.inl halive

/-- The tables may be purged. -/
theorem purged (hsim : Simulates kept h s) {r : Registry String Object}
    (henabled : r.enabled = h.registry.enabled)
    (htable : ∀ kind, r.table kind = h.registry.table kind ∨
      r.table kind = ((h.registry.table kind).purge (h.aliveWith kept)).2) :
    Simulates kept { h with registry := r } s where
  places := hsim.places
  enabled := henabled.trans hsim.enabled
  distinct kind := by
    rcases htable kind with heq | heq
    · exact heq ▸ hsim.distinct kind
    · exact heq ▸ Table.keysDistinct_purge (hsim.distinct kind)
  find kind key := by
    refine Eq.trans ?_ (hsim.find kind key)
    rcases htable kind with heq | heq
    · exact congrArg (Table.find? _ · key) heq
    · exact (congrArg (Table.find? _ · key) heq).trans (Table.find?_purge (hsim.distinct kind))
  older kind e he := by
    rcases htable kind with heq | heq
    · exact hsim.older kind e (heq ▸ he)
    · exact hsim.older kind e (Table.mem_purge.mp (heq ▸ he)).1
  lastOlder := hsim.lastOlder
  aliveOlder := hsim.aliveOlder

theorem purges (hsim : Simulates kept h s) {r : Registry String Object}
    (hr : h.registry.Purges (h.aliveWith kept) r) : Simulates kept { h with registry := r } s :=
  hsim.purged hr.enabled hr.table

theorem sweep (hsim : Simulates [] h s) : Simulates [] h.sweep.2 s :=
  hsim.purges (Places.aliveWith_nil ▸ Registry.purges_sweep)

/-- A value that is alive is registered. The table may purge itself. -/
theorem register (hsim : Simulates kept h s) (ho : h.aliveWith kept o = true)
    {r : Registry String Object} (henabled : r.enabled = h.registry.enabled) (kind key : String)
    {strategy : Strategy}
    (hself : r.table kind = (h.registry.table kind).register strategy (h.aliveWith kept) key o)
    (hothers : ∀ k, k ≠ kind → r.table k = h.registry.table k) :
    Simulates kept { h with registry := r } (s.register kind key o) where
  places := hsim.places
  enabled := henabled.trans hsim.enabled
  distinct k := by
    by_cases hk : k = kind
    · subst hk
      exact hself ▸ Table.keysDistinct_register (hsim.distinct k)
    · exact hothers k hk ▸ hsim.distinct k
  find k l := by
    show (r.table k).find? _ l = Option.filter _ (if k = kind ∧ l = key then some o else s.last k l)
    by_cases hk : k = kind
    · subst hk
      rw [hself]
      by_cases hl : l = key
      · subst hl
        rw [if_pos ⟨rfl, rfl⟩, Table.find?_register_self (hsim.distinct k) ho]
        exact (Option.filter_eq_some_iff.mpr ⟨rfl, ho⟩).symm
      · rw [if_neg fun hboth => hl hboth.2, Table.find?_register_of_ne (hsim.distinct k) hl]
        exact hsim.find k l
    · rw [if_neg fun hboth => hk hboth.1, hothers k hk]
      exact hsim.find k l
  older k e he := by
    by_cases hk : k = kind
    · subst hk
      rw [hself] at he
      rcases Table.mem_of_mem_register he with rfl | ⟨he, -⟩
      · exact hsim.aliveOlder o ho
      · exact hsim.older k e he
    · exact hsim.older k e (hothers k hk ▸ he)
  lastOlder k l o' ho' := by
    change (if k = kind ∧ l = key then some o else s.last k l) = some o' at ho'
    split_ifs at ho' with hkey
    · obtain rfl := Option.some.inj ho'
      exact hsim.aliveOlder o ho
    · exact hsim.lastOlder k l o' ho'
  aliveOlder := hsim.aliveOlder

/-- **Acquiring.** The registry and the reference give the same value, and make one in the
same cases. -/
theorem acquireWith (hsim : Simulates kept h s) (kind key content : String) :
    ∃ o made h' s', h.acquireWith kept kind key content = (o, made, h') ∧
      s.acquireWith kept kind key content = (o, made, s') ∧
        Simulates (o :: kept) h' s' := by
  obtain ⟨p, r⟩ := h
  obtain ⟨p', enabled, last⟩ := s
  obtain rfl : p = p' := hsim.places
  have hfresh := hsim.fresh kind content
  cases henabled : r.enabled with
  | false =>
      have hs : enabled = false := hsim.enabled.symm.trans henabled
      exact ⟨_, _, _, _, Holders.acquireWith_of_disabled henabled,
        Reference.acquireWith_of_disabled hs, hfresh⟩
  | true =>
      have hs : enabled = true := hsim.enabled.symm.trans henabled
      cases hfind : (r.table kind).find? (p.aliveWith kept) key with
      | some o =>
          refine ⟨_, _, _, _, Holders.acquireWith_of_find? henabled hfind,
            Reference.acquireWith_of_current? hs (hsim.find_eq.symm.trans hfind), ?_⟩
          refine (hsim.keep ?_).purged Registry.enabled_setTable fun k => ?_
          · exact (Option.filter_eq_some_iff.mp hfind).2
          · exact Or.inl Registry.table_setTable_table
      | none =>
          refine ⟨_, _, _, _, Holders.acquireWith_of_find?_eq_none henabled hfind,
            Reference.acquireWith_of_current?_eq_none hs (hsim.find_eq.symm.trans hfind), ?_⟩
          exact hfresh.register Places.aliveWith_self Registry.enabled_setTable kind key
            Registry.table_setTable_self fun k hk => Registry.table_setTable_of_ne hk

/-- **Offering** a value that is held. The registry and the reference give the same value, if
it makes no difference to the reference that the candidate is held. -/
theorem offer (hsim : Simulates [candidate] h s) (key : String)
    (hcurrent : s.current? [candidate] candidate.kind key = s.current? [] candidate.kind key) :
    ∃ o isCandidate h' s', h.offer key candidate = (o, isCandidate, h') ∧
      s.offer key candidate = (o, isCandidate, s') ∧ Simulates [o] h' s' := by
  have hfind : (h.registry.table candidate.kind).find? (h.aliveWith [candidate]) key =
      s.current? [] candidate.kind key := hsim.find_eq.trans hcurrent
  cases henabled : h.registry.enabled with
  | false =>
      have hs : s.enabled = false := hsim.enabled.symm.trans henabled
      exact ⟨_, _, _, _, Holders.offer_of_disabled henabled, Reference.offer_of_disabled hs, hsim⟩
  | true =>
      have hs : s.enabled = true := hsim.enabled.symm.trans henabled
      cases hfound : s.current? [] candidate.kind key with
      | some o =>
          rw [hfound] at hfind
          refine ⟨_, _, _, _, Holders.offer_of_find? henabled hfind,
            Reference.offer_of_current? hs hfound, ?_⟩
          have ho : h.aliveWith [candidate] o = true := (Option.filter_eq_some_iff.mp hfind).2
          have hkept : Simulates [o] h s := (hsim.keep ho).narrow fun o' ho' => by
            rw [Places.aliveWith_cons, Places.aliveWith_nil] at ho'
            rw [Places.aliveWith_cons]
            exact Bool.or_eq_true_iff.mpr ((Bool.or_eq_true_iff.mp ho').imp_right fun halive =>
              Bool.or_eq_true_iff.mpr (Or.inl halive))
          exact hkept.purged Registry.enabled_setTable fun k => Or.inl Registry.table_setTable_table
      | none =>
          rw [hfound] at hfind
          exact ⟨_, _, _, _, Holders.offer_of_find?_eq_none henabled hfind,
            Reference.offer_of_current?_eq_none hs hfound,
            hsim.register Places.aliveWith_self Registry.enabled_setTable _ key
              Registry.table_setTable_self fun k hk => Registry.table_setTable_of_ne hk⟩

/-- A value that some place holds. -/
theorem offer_held (hsim : Simulates [] h s) (key : String) (hc : h.alive candidate = true) :
    ∃ o isCandidate h' s', h.offer key candidate = (o, isCandidate, h') ∧
      s.offer key candidate = (o, isCandidate, s') ∧ Simulates [o] h' s' := by
  have hkept : Simulates [candidate] h s := hsim.keep (by rwa [Places.aliveWith_nil])
  refine hkept.offer key (hkept.find_eq.symm.trans (hsim.find_eq_of_kept ?_))
  rintro o ho
  exact Or.inl (List.mem_singleton.mp ho ▸ hc)

/-- A new value. -/
theorem acquire (hsim : Simulates [] h s) (kind key content : String) :
    ∃ o isCandidate h' s', h.acquire kind key content = (o, isCandidate, h') ∧
      s.acquire kind key content = (o, isCandidate, s') ∧ Simulates [o] h' s' := by
  have hnext : h.next = s.next := congrArg Places.next hsim.places
  have hfresh := hsim.fresh kind content
  unfold Reference.acquire
  rw [← hnext] at hfresh ⊢
  refine hfresh.offer key (hfresh.find_eq.symm.trans (hsim.find_eq_of_kept ?_))
  rintro o ho
  exact Or.inr (List.mem_singleton.mp ho ▸ Nat.le_refl _)

/-- Filling is acquiring in turn. -/
theorem fill (hsim : Simulates kept h s) (kind label : String) (keep : Bool) (first count : Nat) :
    ∃ made kept' h' s', Holders.fill kind label keep first count kept h = (made, kept', h') ∧
      Reference.fill kind label keep first count kept s = (made, kept', s') ∧
        Simulates kept' h' s' := by
  induction count generalizing first kept h s with
  | zero => exact ⟨0, kept, h, s, rfl, rfl, hsim⟩
  | succ count ih =>
      obtain ⟨o, made, h', s', hh, hs, hsim'⟩ :=
        hsim.acquireWith kind (label ++ toString first) (label ++ toString first)
      have hkept : Simulates (if keep then o :: kept else []) h' s' := by
        cases keep with
        | true => exact hsim'
        | false =>
            refine hsim'.narrow fun o' halive => ?_
            change h'.aliveWith [] o' = true at halive
            rw [Places.aliveWith_nil] at halive
            exact Bool.or_eq_true_iff.mpr (Or.inl halive)
      obtain ⟨n, kept', h'', s'', hh', hs', hsim''⟩ := ih hkept (first + 1)
      refine ⟨if made then n + 1 else n, kept', h'', s'', ?_, ?_, hsim''⟩
      · rw [Holders.fill, hh]
        dsimp only
        rw [hh']
      · rw [Reference.fill, hs]
        dsimp only
        rw [hs']

/-- What was acquired is held in a place, or let go. -/
theorem hold {os : List Object} (hsim : Simulates os h s) (place : Option String) :
    Simulates [] (h.withPlaces (h.hold place os)) (s.withPlaces (s.hold place os)) := by
  rw [← hsim.places]
  refine hsim.recast ?_ fun o halive => Or.inl ?_
  · cases place <;> exact Nat.le_refl _
  · rw [Places.aliveWith_nil] at halive
    exact Places.aliveWith_of_hold halive

/-- **One step.** The answer is the same, if it is about values. -/
theorem step (hsim : Simulates [] h s) (st : Step) :
    (h.step st).1.ofValues? = (s.step st).1 ∧ Simulates [] (h.step st).2 (s.step st).2 := by
  cases st with
  | acquire kind key content place =>
      obtain ⟨o, isCandidate, h', s', hh, hs, hsim'⟩ := hsim.acquire kind key content
      rw [Holders.step, Reference.step, hh, hs]
      exact ⟨rfl, hsim'.hold place⟩
  | offer source key place =>
      rw [Holders.step, Reference.step, ← hsim.places]
      cases hc : h.first? source with
      | some candidate =>
          obtain ⟨os, hos, hmem⟩ := Option.bind_eq_some_iff.mp hc
          obtain ⟨o, isCandidate, h', s', hh, hs, hsim'⟩ :=
            hsim.offer_held key (Places.alive_of_place? hos (List.mem_of_mem_head? hmem))
          simp only [hh, hs]
          exact ⟨rfl, hsim'.hold place⟩
      | none => exact ⟨rfl, hsim⟩
  | acquireWith kind key content place =>
      obtain ⟨o, made, h', s', hh, hs, hsim'⟩ := hsim.acquireWith kind key content
      rw [Holders.step, Reference.step, hh, hs]
      exact ⟨rfl, hsim'.hold place⟩
  | fill kind label first count place =>
      obtain ⟨made, kept, h', s', hh, hs, hsim'⟩ := hsim.fill kind label place.isSome first count
      rw [Holders.step, Reference.step, hh, hs]
      refine ⟨rfl, (hsim'.narrow ?_).hold place⟩
      intro o halive
      unfold Places.aliveWith at halive ⊢
      rw [List.any_reverse] at halive
      exact halive
  | find kind key place =>
      rw [Holders.step, Reference.step, hsim.find?_eq]
      cases hfound : s.find? kind key with
      | some o =>
          refine ⟨rfl, Simulates.hold (hsim.keep ?_) place⟩
          unfold Reference.find? at hfound
          split_ifs at hfound
          rw [hsim.places]
          exact (Option.filter_eq_some_iff.mp hfound).2
      | none => exact ⟨rfl, hsim⟩
  | drop name =>
      rw [Holders.step, Reference.step, ← hsim.places]
      refine ⟨rfl, hsim.recast (Nat.le_refl _) fun o halive => Or.inl ?_⟩
      rw [Places.aliveWith_nil] at halive ⊢
      exact Places.alive_of_letGo halive
  | copy source place =>
      rw [Holders.step, Reference.step, ← hsim.places]
      cases hos : h.place? source with
      | some os =>
          have hkept : Simulates os h s := hsim.narrow fun o halive => by
            rw [Places.aliveWith_nil]
            exact Places.alive_of_aliveWith (fun o' ho' => Places.alive_of_place? hos ho') halive
          have hheld := hkept.hold place
          rw [← hsim.places] at hheld
          exact ⟨rfl, hheld⟩
      | none => exact ⟨rfl, hsim⟩
  | sameObject a b =>
      rw [Holders.step, Reference.step, ← hsim.places]
      cases h.first? a with
      | none => exact ⟨rfl, hsim⟩
      | some o => cases h.first? b <;> exact ⟨rfl, hsim⟩
  | purge =>
      exact ⟨rfl, hsim.purges (Places.aliveWith_nil ▸ Registry.purges_purge)⟩
  | enable on =>
      exact ⟨rfl, hsim.places, rfl, hsim.distinct, hsim.find, hsim.older, hsim.lastOlder,
        hsim.aliveOlder⟩
  | shutdown => exact ⟨rfl, hsim.purged rfl fun _ => Or.inl rfl⟩
  | sweep =>
      refine ⟨?_, Holders.step_sweep ▸ hsim.sweep⟩
      rw [Holders.step]
      rcases h.sweep with ⟨_ | stats, h'⟩ <;> rfl
  | awaitSweep kind => exact ⟨rfl, hsim.sweep.sweep⟩
  | count _ | stats | describe => exact ⟨rfl, hsim⟩

/-- **A run.** The answers are the same, as far as they are about values. -/
theorem run (hsim : Simulates [] h s) (steps : List Step) :
    (h.run steps).map Reply.ofValues? = s.run steps := by
  induction steps generalizing h s with
  | nil => rfl
  | cons st steps ih =>
      obtain ⟨hreply, hnext⟩ := hsim.step st
      exact List.cons_eq_cons.mpr ⟨hreply, ih hnext⟩

theorem after (hsim : Simulates [] h s) (steps : List Step) :
    Simulates [] (h.after steps) (s.after steps) := by
  induction steps generalizing h s with
  | nil => exact hsim
  | cons st steps ih => exact ih (hsim.step st).2

end Simulates

/-! ## The refinement -/

/-- The registry answers as the reference does: a value that is found is the answer itself,
and nothing is made; otherwise the answer is what is made, once, or the candidate. The
candidate may be held meanwhile, and others, if they are alive anyway or new. -/
structure Answers (h : Holders) (s : Reference) : Prop where
  places : h.toPlaces = s.toPlaces
  enabled : h.registry.enabled = s.enabled
  find : ∀ kind key, h.registry.find? h.alive kind key = s.find? kind key
  acquire : ∀ kept kind key candidate,
    (∀ o ∈ kept, h.alive o = true ∨ h.next ≤ o.identity) →
      (h.registry.acquire (h.aliveWith kept) kind key candidate).1 =
        (s.find? kind key).getD candidate
  acquireWith : ∀ kind key {m : Type → Type} [Monad m] [LawfulMonad m] (make : m Object),
    Prod.fst <$> h.registry.acquireWith h.aliveWith kind key make =
      (s.find? kind key).elim make pure

theorem Simulates.answers {h : Holders} {s : Reference} (hsim : Simulates [] h s) :
    Answers h s where
  places := hsim.places
  enabled := hsim.enabled
  find _ _ := hsim.find?_eq
  acquire _ _ _ _ hkept := by rw [Registry.fst_acquire, hsim.find?_eq_of_kept hkept]
  acquireWith _ _ _ _ _ _ := by
    rw [Registry.fst_acquireWith, Places.aliveWith_nil, hsim.find?_eq]

/-- **Both strategies refine one reference map.** A run with a registry of any
configuration shows of values what the reference shows, which knows whether the registry
is enabled and nothing else of its configuration, and for which purges, sweeps and the end
of the sweeper do nothing. After the run the registry answers as the reference does, whatever
is acquired next. -/
theorem run_eq_reference (config : Config) (steps : List Step) :
    ((Holders.new config).run steps).map Reply.ofValues? =
        (Reference.new config.enabled).run steps ∧
      Answers ((Holders.new config).after steps) ((Reference.new config.enabled).after steps) :=
  ⟨(Simulates.new config).run steps, ((Simulates.new config).after steps).answers⟩

end ClassfileTypes.Intern
