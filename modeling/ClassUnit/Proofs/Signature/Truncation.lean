import ClassUnit.Proofs.Signature.Building

/-! # Truncated signatures

A sequence of events that is broken off is not taken for a signature. What remains of the events of
a tree either ends inside of a type, which the frames of the builder show, or it is the whole of a
tree that ends earlier, or it lacks what makes it a signature (`Document.prefix_complete_or_refused`).
A builder therefore accepts a beginning of the events of a tree exactly where that is the whole of
some tree (`Document.ofEvents_prefix_eq_ok_iff`). -/

namespace ClassUnit.Signature

theorem prefix_append_cases {q xs ys : List α} (h : q <+: xs ++ ys) :
    q <+: xs ∨ ∃ q', q = xs ++ q' ∧ q' <+: ys := by
  obtain ⟨r, hr⟩ := h
  rcases List.append_eq_append_iff.1 hr with ⟨w, rfl, -⟩ | ⟨w, rfl, rfl⟩
  · exact .inl (List.prefix_append ..)
  · exact .inr ⟨w, rfl, List.prefix_append ..⟩

namespace Builder

/-! ## Inside of a type -/

/-- Building goes on, with at least `n` frames in the end. -/
def Reaches (b : Builder) (n : Nat) (ds : List Delivery) : Prop :=
  ∃ c, b.buildAll ds = .ok c ∧ n ≤ c.frames.length

theorem Reaches.mono {b : Builder} (h : b.Reaches n ds) (hmn : m ≤ n) : b.Reaches m ds := by
  obtain ⟨c, hbuild, hn⟩ := h
  exact ⟨c, hbuild, hmn.trans hn⟩

theorem Reaches.append {b c : Builder} (hbuild : b.buildAll ds = .ok c) (h : c.Reaches n es) :
    b.Reaches n (ds ++ es) := by
  obtain ⟨c', hbuild', hn⟩ := h
  exact ⟨c', (buildAll_append_ok hbuild).trans hbuild', hn⟩

theorem Reaches.cons {b c : Builder} (hstep : b.step d.event = .ok c) (h : c.Reaches n ds) :
    b.Reaches n (d :: ds) := by
  obtain ⟨c', hbuild, hn⟩ := h
  exact ⟨c', (buildAll_cons_ok hstep).trans hbuild, hn⟩

theorem Reaches.nil (b : Builder) : b.Reaches b.frames.length [] := ⟨b, rfl, le_rfl⟩

mutual

/-- From its first event to its last a type keeps a frame of its own. -/
theorem type_or_reaches (b : Builder) (level : Nat) :
    ∀ t : TypeTree, t.TagsExact → ∀ q, q <+: t.deliveries level →
      q = [] ∨ q = t.deliveries level ∨ b.Reaches (b.frames.length + 1) q
  | .base _, _, q, hq | .typeVariable _, _, q, hq => by
    rcases List.prefix_cons_iff.1 hq with rfl | ⟨r, rfl, hr⟩
    · exact .inl rfl
    · obtain rfl := List.prefix_nil.1 hr
      exact .inr (.inl rfl)
  | .array element, h, q, hq => by
    rcases List.prefix_cons_iff.1 hq with rfl | ⟨r, rfl, hr⟩
    · exact .inl rfl
    rcases type_or_reaches (b.push .array) (level + 1) element h r hr with rfl | rfl | hreaches
    · exact .inr (.inr ((Reaches.nil _).cons rfl))
    · exact .inr (.inl rfl)
    · exact .inr (.inr ((hreaches.cons rfl).mono (Nat.le_succ _)))
  | .classType (.mk name as) inners, ⟨houter, hinners⟩, q, hq => by
    have has := buildAll_arguments b { name } level as houter
    have hss := buildAll_segments b (({ name } : OpenClass).addAll as) level inners hinners
    rw [TypeTree.deliveries, Segment.deliveries, List.cons_append] at hq ⊢
    rcases List.prefix_cons_iff.1 hq with rfl | ⟨r, rfl, hr⟩
    · exact .inl rfl
    rcases prefix_append_cases hr with hargs | ⟨segs, rfl, hsegs⟩
    · exact .inr (.inr ((arguments_reach b { name } level as houter r hargs).cons rfl))
    rcases prefix_append_cases hsegs with hsegs' | ⟨last, rfl, hlast⟩
    · have hreaches := segments_reach b (({ name } : OpenClass).addAll as) level inners hinners segs
        hsegs'
      exact .inr (.inr ((hreaches.append has).cons rfl))
    rcases List.prefix_cons_iff.1 hlast with rfl | ⟨none, rfl, hnone⟩
    · exact .inr (.inr ((((Reaches.nil _).append hss).append has).cons rfl))
    · obtain rfl := List.prefix_nil.1 hnone
      exact .inr (.inl rfl)

theorem segments_reach (b : Builder) (c : OpenClass) (level : Nat) :
    ∀ ss : List Segment, segmentsTagExact ss → ∀ q, q <+: segmentDeliveries level ss →
      (b.push (.openClass c)).Reaches (b.frames.length + 1) q
  | [], _, q, hq => by
    obtain rfl := List.prefix_nil.1 hq
    exact .nil _
  | .mk name as :: ss, ⟨hs, hss⟩, q, hq => by
    rw [segmentDeliveries, Segment.deliveries, List.cons_append] at hq
    rcases List.prefix_cons_iff.1 hq with rfl | ⟨r, rfl, hr⟩
    · exact .nil _
    rcases prefix_append_cases hr with hargs | ⟨segs, rfl, hsegs⟩
    · exact (arguments_reach b (c.enter name) level as hs r hargs).cons rfl
    · have has := buildAll_arguments b (c.enter name) level as hs
      exact ((segments_reach b _ level ss hss segs hsegs).append has).cons rfl

theorem arguments_reach (b : Builder) (c : OpenClass) (level : Nat) :
    ∀ as : List Argument, argumentsTagExact as → ∀ q, q <+: argumentDeliveries level as →
      (b.push (.openClass c)).Reaches (b.frames.length + 1) q
  | [], _, q, hq => by
    obtain rfl := List.prefix_nil.1 hq
    exact .nil _
  | a :: as, ⟨ha, has⟩, q, hq => by
    rcases prefix_append_cases hq with hr | ⟨r, rfl, hr⟩
    · exact argument_reaches b c level a ha q hr
    · have hargument := buildAll_argument b c level a ha
      exact (arguments_reach b (c.add a) level as has r hr).append hargument

theorem argument_reaches (b : Builder) (c : OpenClass) (level : Nat) :
    ∀ a : Argument, a.TagsExact → ∀ q, q <+: a.deliveries level →
      (b.push (.openClass c)).Reaches (b.frames.length + 1) q
  | .unbounded, _, q, hq => by
    rcases List.prefix_cons_iff.1 hq with rfl | ⟨r, rfl, hr⟩
    · exact .nil _
    · obtain rfl := List.prefix_nil.1 hr
      exact (Reaches.nil _).cons rfl
  | .bounded variance bound tagged, ⟨htag, hbound⟩, q, hq => by
    have hstep := step_argumentEvent (b.push (.openClass c)) htag
    rw [Argument.deliveries_bounded] at hq
    rcases List.prefix_cons_iff.1 hq with rfl | ⟨r, rfl, hr⟩
    · exact .nil _
    rcases type_or_reaches _ (level + 1) bound hbound r hr with rfl | rfl | hreaches
    · exact ((Reaches.nil _).cons hstep).mono (Nat.le_succ _)
    · have hcomplete := buildAll_type ((b.push (.openClass c)).push (.argument variance tagged))
        (level + 1) bound hbound
      exact Reaches.cons hstep ⟨_, hcomplete.trans (push_argument_complete ..), le_rfl⟩
    · exact (hreaches.cons hstep).mono ((Nat.le_succ _).trans (Nat.le_succ _))

end

/-! ## Between types -/

variable {b : Builder} {q : List Delivery}

theorem announced_or_reaches {b' : Builder} {t : TypeTree} (role : Role) (h : t.TagsExact)
    (hstep : b.step event = .ok (b'.push (.role role))) (hq : q <+: announced event t) :
    q = [] ∨ q = announced event t ∨ b.Reaches 1 q := by
  rcases List.prefix_cons_iff.1 hq with rfl | ⟨r, rfl, hr⟩
  · exact .inl rfl
  rcases type_or_reaches (b'.push (.role role)) 1 t h r hr with rfl | rfl | hreaches
  · exact .inr (.inr (((Reaches.nil _).cons hstep).mono (Nat.le_add_left ..)))
  · exact .inr (.inl rfl)
  · exact .inr (.inr ((hreaches.cons hstep).mono (Nat.le_add_left ..)))

/-- A state that keeps what `event` announces in a list, newest first. -/
def Collects (event : Event) (S : List TypeTree → Builder) : Prop :=
  ∀ acc, ∃ (b : Builder) (role : Role), (S acc).step event = .ok (b.push (.role role)) ∧
    ∀ t, b.store t role = .ok (S (t :: acc))

theorem Collects.buildAll {S : List TypeTree → Builder} (hS : Collects event S)
    (acc : List TypeTree) {t : TypeTree} (h : t.TagsExact) :
    (S acc).buildAll (announced event t) = .ok (S (t :: acc)) := by
  obtain ⟨b, role, hstep, hstore⟩ := hS acc
  exact buildAll_announced h hstep (hstore t)

theorem Collects.or_reaches {S : List TypeTree → Builder} (hS : Collects event S)
    {ts : List TypeTree} (hts : ∀ t ∈ ts, t.TagsExact) (acc : List TypeTree)
    (hq : q <+: ts.flatMap (announced event)) :
    (∃ us, us <+: ts ∧ q = us.flatMap (announced event)) ∨ (S acc).Reaches 1 q := by
  induction ts generalizing acc q with
  | nil => exact .inl ⟨[], List.nil_prefix, List.prefix_nil.1 hq⟩
  | cons t ts ih =>
    have ht : t.TagsExact := hts t List.mem_cons_self
    obtain ⟨b, role, hstep, -⟩ := hS acc
    rw [List.flatMap_cons] at hq
    rcases prefix_append_cases hq with hfirst | ⟨r, rfl, hr⟩
    · rcases announced_or_reaches role ht hstep hfirst with rfl | rfl | hreaches
      · exact .inl ⟨[], List.nil_prefix, rfl⟩
      · exact .inl ⟨[t], by simp, by simp⟩
      · exact .inr hreaches
    · rcases ih (fun u hu => hts u (List.mem_cons_of_mem _ hu)) (t :: acc) hr
        with ⟨us, hus, rfl⟩ | hreaches
      · exact .inl ⟨t :: us, List.cons_prefix_cons.2 ⟨rfl, hus⟩, by rw [List.flatMap_cons]⟩
      · exact .inr (hreaches.append (hS.buildAll acc ht))

theorem formal_or_reaches (b : Builder) {f : Formal} (h : f.TagsExact) (hq : q <+: f.deliveries) :
    q = [] ∨ (∃ g : Formal, g.TagsExact ∧ q = g.deliveries) ∨ b.Reaches 1 q := by
  obtain ⟨name, bound, bounds⟩ := f
  have hcollects : Collects .interfaceBound
      fun acc => { b with formals := ⟨name, bound, acc⟩ :: b.formals } :=
    fun acc => ⟨_, _, rfl, fun _ => rfl⟩
  rw [Formal.deliveries] at hq
  rcases List.prefix_cons_iff.1 hq with rfl | ⟨r, rfl, hr⟩
  · exact .inl rfl
  right
  -- Where it is cut between two bounds, a formal is complete with the bounds before the cut.
  cases bound with
  | none =>
    rcases hcollects.or_reaches h.interfaceBounds [] hr with ⟨us, hus, rfl⟩ | hreaches
    · exact .inl ⟨⟨name, none, us⟩, ⟨by simp, fun u hu => h.interfaceBounds u (hus.subset hu)⟩, rfl⟩
    · exact .inr (hreaches.cons rfl)
  | some t =>
    have ht : t.TagsExact := h.classBound t rfl
    rw [Option.toList_some, List.flatMap_singleton] at hr
    have hbound : ({ b with formals := { name } :: b.formals } : Builder).buildAll
        (announced .classBound t) = .ok { b with formals := ⟨name, some t, []⟩ :: b.formals } :=
      buildAll_announced ht rfl rfl
    rcases prefix_append_cases hr with hfirst | ⟨more, rfl, hmore⟩
    · rcases announced_or_reaches .classBound ht rfl hfirst with rfl | rfl | hreaches
      · exact .inl ⟨⟨name, none, []⟩, ⟨by simp, by simp⟩, rfl⟩
      · exact .inl ⟨⟨name, some t, []⟩, ⟨by simpa using ht, by simp⟩, by simp [Formal.deliveries]⟩
      · exact .inr (hreaches.cons rfl)
    · rcases hcollects.or_reaches h.interfaceBounds [] hmore with ⟨us, hus, rfl⟩ | hreaches
      · refine .inl ⟨⟨name, some t, us⟩, ⟨by simpa using ht, fun u hu => ?_⟩, ?_⟩
        · exact h.interfaceBounds u (hus.subset hu)
        · simp [Formal.deliveries]
      · exact .inr ((hreaches.append hbound).cons rfl)

theorem formals_or_reaches (b : Builder) {fs : List Formal} (h : ∀ f ∈ fs, f.TagsExact)
    (hq : q <+: fs.flatMap Formal.deliveries) :
    (∃ gs : List Formal, (∀ g ∈ gs, g.TagsExact) ∧ q = gs.flatMap Formal.deliveries) ∨
      b.Reaches 1 q := by
  induction fs generalizing b q with
  | nil => exact .inl ⟨[], by simp, List.prefix_nil.1 hq⟩
  | cons f fs ih =>
    have hf : f.TagsExact := h f List.mem_cons_self
    rw [List.flatMap_cons] at hq
    rcases prefix_append_cases hq with hfirst | ⟨r, rfl, hr⟩
    · rcases formal_or_reaches b hf hfirst with rfl | ⟨g, hg, rfl⟩ | hreaches
      · exact .inl ⟨[], by simp, rfl⟩
      · exact .inl ⟨[g], by simpa using hg, by simp⟩
      · exact .inr hreaches
    · rcases ih _ (fun g hg => h g (List.mem_cons_of_mem _ hg)) hr with ⟨gs, hgs, rfl⟩ | hreaches
      · exact .inl ⟨f :: gs, by simpa using ⟨hf, hgs⟩, by rw [List.flatMap_cons]⟩
      · exact .inr (hreaches.append (buildAll_formal b hf))

/-! ## At the end of a sequence -/

/-- No document is made of these deliveries. -/
def Refused (ds : List Delivery) : Prop := ∀ d, Document.ofEvents (ds.map (·.event)) ≠ .ok d

theorem refused_of_finish {c : Builder} (hbuild : ({} : Builder).buildAll q = .ok c)
    (hfinish : ∃ breach, c.finish = .error breach) : Refused q := by
  obtain ⟨breach, hfinish⟩ := hfinish
  have hbuild' : ({} : Builder).build (q.map (·.event)) = .ok c := hbuild
  intro d h
  rw [Document.ofEvents, hbuild'] at h
  simp [hfinish] at h

theorem Reaches.refused (h : ({} : Builder).Reaches 1 q) : Refused q := by
  obtain ⟨c, hbuild, hframes⟩ := h
  refine refused_of_finish hbuild ⟨.openType, ?_⟩
  cases hc : c.frames with
  | nil => simp [hc] at hframes
  | cons f fs => simp [finish, hc]

/-- The builder that has seen formal type parameters and parameters and nothing else. -/
def afterParameters (fs : List Formal) (parameters : List TypeTree) : Builder :=
  { afterFormals fs with
    shape := if parameters.isEmpty then .unknown else .ofMethod
    parameters }

theorem collects_parameter (fs : List Formal) : Collects .parameter (afterParameters fs) := by
  intro acc
  refine ⟨{ afterParameters fs acc with shape := .ofMethod }, .parameter, ?_, fun t => rfl⟩
  cases acc <;> rfl

/-- The first parameter, or for want of one the result, makes the signature one of a method. -/
theorem step_result_afterParameters (fs : List Formal) (parameters : List TypeTree) :
    (afterParameters fs parameters).step .result =
      .ok ({ afterParameters fs parameters with shape := .ofMethod }.push (.role .result)) := by
  cases parameters <;> rfl

theorem finish_afterParameters (fs : List Formal) (parameters : List TypeTree) :
    ∃ breach, (afterParameters fs parameters).finish = .error breach := by
  cases parameters with
  | cons t ts => exact ⟨.noResult, rfl⟩
  | nil =>
    cases fs with
    | nil => exact ⟨.emptySignature, rfl⟩
    | cons f fs => exact ⟨.looseFormals, by simp [finish, afterParameters, afterFormals]⟩

theorem buildAll_afterParameters {fs : List Formal} (hfs : ∀ f ∈ fs, f.TagsExact)
    {parameters : List TypeTree} (hparameters : ∀ t ∈ parameters, t.TagsExact) :
    ({} : Builder).buildAll (fs.flatMap Formal.deliveries ++
      parameters.flatMap (announced .parameter)) = .ok (afterParameters fs parameters.reverse) := by
  have hlist := buildAll_list .parameter (fun acc t => (collects_parameter fs).buildAll acc)
    parameters hparameters []
  rw [List.append_nil] at hlist
  rw [buildAll_append_ok (buildAll_afterFormals hfs)]
  exact hlist

/-- Formal type parameters and parameters are not enough. -/
theorem refused_parameters {fs : List Formal} (hfs : ∀ f ∈ fs, f.TagsExact)
    {parameters : List TypeTree} (hparameters : ∀ t ∈ parameters, t.TagsExact) :
    Refused (fs.flatMap Formal.deliveries ++ parameters.flatMap (announced .parameter)) := by
  exact refused_of_finish (buildAll_afterParameters hfs hparameters) (finish_afterParameters ..)

theorem refused_formals {fs : List Formal} (hfs : ∀ f ∈ fs, f.TagsExact)
    (hq : q <+: fs.flatMap Formal.deliveries) : Refused q := by
  rcases formals_or_reaches {} hfs hq with ⟨gs, hgs, rfl⟩ | hreaches
  · simpa using refused_parameters hgs (List.forall_mem_nil _)
  · exact hreaches.refused

theorem classTree_or_refused {t : ClassTree} (h : t.TagsExact) (hq : q <+: t.deliveries) :
    (∃ u : ClassTree, u.TagsExact ∧ q = u.deliveries) ∨ Refused q := by
  rw [ClassTree.deliveries, List.append_assoc] at hq
  have hformals := buildAll_afterFormals h.formals
  rcases prefix_append_cases hq with hq' | ⟨r, rfl, hr⟩
  · exact .inr (refused_formals h.formals hq')
  rcases prefix_append_cases hr with hr' | ⟨more, rfl, hmore⟩
  · have hstep : (afterFormals t.formals).step .superclass =
        .ok (({ afterFormals t.formals with shape := .ofClass } : Builder).push
          (.role .superclass)) := rfl
    rcases announced_or_reaches .superclass h.superclass hstep hr' with rfl | rfl | hreaches
    · rw [List.append_nil]
      exact .inr (refused_formals h.formals List.prefix_rfl)
    · exact .inl ⟨⟨t.formals, t.superclass, []⟩, ⟨h.formals, h.superclass, by simp⟩, by
        simp [ClassTree.deliveries]⟩
    · exact .inr (hreaches.append hformals).refused
  · have hsuperclass : ({} : Builder).buildAll (t.formals.flatMap Formal.deliveries ++
        announced .superclass t.superclass) = .ok { afterFormals t.formals with
          shape := .ofClass, superclass := some t.superclass } := by
      rw [buildAll_append_ok hformals]
      exact buildAll_announced h.superclass rfl rfl
    have hcollects : Collects .interface fun acc => { afterFormals t.formals with
        shape := .ofClass, superclass := some t.superclass, interfaces := acc } :=
      fun acc => ⟨_, _, rfl, fun _ => rfl⟩
    rw [← List.append_assoc]
    rcases hcollects.or_reaches h.interfaces [] hmore with ⟨us, hus, rfl⟩ | hreaches
    · exact .inl ⟨⟨t.formals, t.superclass, us⟩,
        ⟨h.formals, h.superclass, fun i hi => h.interfaces i (hus.subset hi)⟩, rfl⟩
    · exact .inr (hreaches.append hsuperclass).refused

theorem methodTree_or_refused {t : MethodTree} (h : t.TagsExact) (hq : q <+: t.deliveries) :
    (∃ u : MethodTree, u.TagsExact ∧ q = u.deliveries) ∨ Refused q := by
  rw [MethodTree.deliveries, List.append_assoc, List.append_assoc] at hq
  have hformals := buildAll_afterFormals h.formals
  rcases prefix_append_cases hq with hq' | ⟨r, rfl, hr⟩
  · exact .inr (refused_formals h.formals hq')
  rcases prefix_append_cases hr with hr' | ⟨more, rfl, hmore⟩
  · rcases (collects_parameter t.formals).or_reaches h.parameters [] hr'
      with ⟨us, hus, rfl⟩ | hreaches
    · exact .inr (refused_parameters h.formals fun u hu => h.parameters u (hus.subset hu))
    · exact .inr (hreaches.append hformals).refused
  have hparameters := buildAll_afterParameters h.formals h.parameters
  rw [← List.append_assoc]
  have hstep := step_result_afterParameters t.formals t.parameters.reverse
  rcases prefix_append_cases hmore with hmore' | ⟨last, rfl, hlast⟩
  · rcases announced_or_reaches .result h.result hstep hmore' with rfl | rfl | hreaches
    · rw [List.append_nil]
      exact .inr (refused_parameters h.formals h.parameters)
    · exact .inl ⟨⟨t.formals, t.parameters, t.result, []⟩,
        ⟨h.formals, h.parameters, h.result, by simp⟩, by simp [MethodTree.deliveries]⟩
    · exact .inr (hreaches.append hparameters).refused
  · have hresult : ({} : Builder).buildAll (t.formals.flatMap Formal.deliveries ++
        t.parameters.flatMap (announced .parameter) ++ announced .result t.result) =
          .ok { afterParameters t.formals t.parameters.reverse with
            shape := .ofMethod, result := some t.result } := by
      rw [buildAll_append_ok hparameters]
      exact buildAll_announced h.result hstep rfl
    have hcollects : Collects .exception fun acc =>
        { afterParameters t.formals t.parameters.reverse with
          shape := .ofMethod, result := some t.result, exceptions := acc } :=
      fun acc => ⟨_, _, rfl, fun _ => rfl⟩
    rw [← List.append_assoc]
    rcases hcollects.or_reaches h.exceptions [] hlast with ⟨us, hus, rfl⟩ | hreaches
    · exact .inl ⟨⟨t.formals, t.parameters, t.result, us⟩,
        ⟨h.formals, h.parameters, h.result, fun e he => h.exceptions e (hus.subset he)⟩, rfl⟩
    · exact .inr (hreaches.append hresult).refused

end Builder

namespace Document

open Builder (Refused)

/-- The beginning of a document is the whole of one, or it is refused. -/
theorem prefix_complete_or_refused {d : Document} (h : d.TagsExact) {q : List Delivery}
    (hq : q <+: d.deliveries) :
    (∃ e : Document, e.TagsExact ∧ q = e.deliveries) ∨ Refused q := by
  cases d with
  | ofClass tree =>
    exact (Builder.classTree_or_refused h hq).imp_left fun ⟨t, ht, heq⟩ => ⟨.ofClass t, ht, heq⟩
  | ofMethod tree =>
    exact (Builder.methodTree_or_refused h hq).imp_left fun ⟨t, ht, heq⟩ => ⟨.ofMethod t, ht, heq⟩
  | ofType tree =>
    rcases Builder.type_or_reaches {} 0 tree h q hq with rfl | rfl | hreaches
    · exact .inr (Builder.refused_of_finish rfl ⟨.emptySignature, rfl⟩)
    · exact .inl ⟨.ofType tree, h, rfl⟩
    · exact .inr hreaches.refused

/-- The events of a tree give the tree, and a beginning of them gives a tree exactly where it is
the whole of that tree. -/
theorem ofEvents_prefix_eq_ok_iff {d : Document} (h : d.TagsExact) :
    ofEvents d.events = .ok d ∧
      ∀ p, p <+: d.events → ∀ e, ofEvents p = .ok e ↔ e.TagsExact ∧ p = e.events := by
  refine ⟨ofEvents_events h, fun p hp e => ⟨fun hok => ?_, ?_⟩⟩
  · obtain ⟨q, hq, rfl⟩ := List.prefix_map_iff.1 hp
    rcases prefix_complete_or_refused h hq with ⟨e', he', rfl⟩ | hrefused
    · have hok' : ofEvents e'.events = .ok e := hok
      rw [ofEvents_events he', Except.ok.injEq] at hok'
      subst hok'
      exact ⟨he', rfl⟩
    · exact absurd hok (hrefused e)
  · rintro ⟨he, rfl⟩
    exact ofEvents_events he

/-- A class signature without its last interface is one too. -/
theorem ofEvents_prefix_eq_ok_iff_of_class :
    (Document.ofClass ⟨[], .base 'V', [.array (.base 'I')]⟩).TagsExact ∧
      [.superclass, .base 'V'] <+:
        (Document.ofClass ⟨[], .base 'V', [.array (.base 'I')]⟩).events ∧
      ofEvents [.superclass, .base 'V'] = .ok (.ofClass ⟨[], .base 'V', []⟩) := by
  have htags : (Document.ofClass ⟨[], .base 'V', [.array (.base 'I')]⟩).TagsExact :=
    ⟨by simp, trivial, by simp [TypeTree.TagsExact]⟩
  have hprefix : [.superclass, .base 'V'] <+:
      (Document.ofClass ⟨[], .base 'V', [.array (.base 'I')]⟩).events :=
    ⟨[.interface, .array, .base 'I'], rfl⟩
  have hshort : (Document.ofClass ⟨[], .base 'V', []⟩).TagsExact := ⟨by simp, trivial, by simp⟩
  exact ⟨htags, hprefix, ((ofEvents_prefix_eq_ok_iff htags).2 _ hprefix _).2 ⟨hshort, rfl⟩⟩

end Document

end ClassUnit.Signature
