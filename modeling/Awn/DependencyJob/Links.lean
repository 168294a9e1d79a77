import Mathlib.Algebra.Group.Nat.Defs
import Mathlib.Data.List.Nodup
import Mathlib.Data.List.Perm.Basic
import Mathlib.Data.List.Range
import Mathlib.Logic.Function.Basic

/-!
`awn::async::DependencyJobGraph` while it is filled: jobs are registered, and dependencies between
them by user ids. `none` stands for a failed assertion.
-/

namespace Awn

abbrev UserId := BitVec 8

abbrev RegisterId := BitVec 16

structure JobGraphRegisterInfo (J : Type*) where
  job : J
  is_runnable : Bool
  enable_user_id : Bool
  user_id : UserId
  is_multi_run_complete_once : Bool
  multi_run_count : BitVec 16
  core_number : BitVec 16
  priority : BitVec 16

structure JobGraphNode (J : Type*) where
  info : JobGraphRegisterInfo J
  register_id : RegisterId

structure JobRegisterLink where
  parent_register_id : RegisterId
  dependent_register_id : RegisterId

structure JobUserLink where
  parent_user_id : UserId
  dependent_user_id : UserId
  has_register_link : Bool

def JobUserLink.userIds (link : JobUserLink) : UserId × UserId :=
  (link.parent_user_id, link.dependent_user_id)

structure DependencyJobGraphInfo where
  max_job_count : BitVec 16
  max_link_count : BitVec 16

structure DependencyJobGraph (J : Type*) where
  graph_info : DependencyJobGraphInfo
  job_nodes : List (JobGraphNode J)
  register_links : List JobRegisterLink
  user_links : List JobUserLink
  register_id_iter : RegisterId
  user_id_to_register_id_map : UserId → RegisterId

namespace DependencyJobGraph

def cInvalidRegisterId : RegisterId := 0xffff

section Operations

variable {J : Type*} (g : DependencyJobGraph J)

def initialized (job_graph_info : DependencyJobGraphInfo) : DependencyJobGraph J where
  graph_info := job_graph_info
  job_nodes := []
  register_links := []
  user_links := []
  register_id_iter := 0
  user_id_to_register_id_map := fun _ => cInvalidRegisterId

def RegisterDependency (parent_register_id dependent_register_id : RegisterId) :
    Option (DependencyJobGraph J) :=
  if g.register_links.length < g.graph_info.max_link_count.toNat then
    some { g with
      register_links := g.register_links ++ [⟨parent_register_id, dependent_register_id⟩] }
  else none

def resolveLink (user_id : UserId) (link : JobUserLink) :
    Option (DependencyJobGraph J × JobUserLink) :=
  if link.has_register_link = true ∨
      (link.parent_user_id ≠ user_id ∧ link.parent_user_id ≠ user_id) then some (g, link)
  else
    let other_user_id :=
      if link.parent_user_id ≠ user_id then link.parent_user_id else link.dependent_user_id
    if g.user_id_to_register_id_map other_user_id ≠ cInvalidRegisterId then some (g, link)
    else
      (g.RegisterDependency (g.user_id_to_register_id_map link.parent_user_id)
        (g.user_id_to_register_id_map link.dependent_user_id)).map fun g =>
          (g, { link with has_register_link := true })

def resolveLinks (g : DependencyJobGraph J) (user_id : UserId) :
    List JobUserLink → Option (DependencyJobGraph J × List JobUserLink)
  | [] => some (g, [])
  | link :: links => (g.resolveLink user_id link).bind fun (g, link) =>
    (resolveLinks g user_id links).map fun (g, links) => (g, link :: links)

def RegisterJob (register_info : JobGraphRegisterInfo J) :
    Option (DependencyJobGraph J × RegisterId) :=
  if g.job_nodes.length < g.graph_info.max_job_count.toNat then
    let register_id := g.register_id_iter
    let g := { g with
      job_nodes := g.job_nodes ++ [⟨register_info, register_id⟩]
      register_id_iter := g.register_id_iter + 1 }
    if register_info.enable_user_id = false then some (g, register_id)
    else
      let user_id := register_info.user_id
      let g := { g with
        user_id_to_register_id_map :=
          Function.update g.user_id_to_register_id_map user_id register_id }
      (g.resolveLinks user_id g.user_links).map fun (g, links) =>
        ({ g with user_links := links }, register_id)
  else none

def RegisterDependencyByUserId (parent_user_id dependent_user_id : UserId) :
    Option (DependencyJobGraph J) :=
  if g.user_links.length < g.graph_info.max_link_count.toNat then
    let parent_register_id := g.user_id_to_register_id_map parent_user_id
    let dependent_register_id := g.user_id_to_register_id_map dependent_user_id
    let add (has_register_link : Bool) (g : DependencyJobGraph J) := { g with
      user_links := g.user_links ++ [⟨parent_user_id, dependent_user_id, has_register_link⟩] }
    if parent_register_id = cInvalidRegisterId then some (add false g)
    else if dependent_register_id = cInvalidRegisterId then some (add false g)
    else (g.RegisterDependency parent_register_id dependent_register_id).map (add true)
  else none

end Operations

inductive Call (J : Type*)
  | RegisterJob (register_info : JobGraphRegisterInfo J)
  | RegisterDependencyByUserId (parent_user_id dependent_user_id : UserId)

variable {J : Type*}

def call (g : DependencyJobGraph J) : Call J → Option (DependencyJobGraph J)
  | .RegisterJob register_info => (g.RegisterJob register_info).map Prod.fst
  | .RegisterDependencyByUserId parent_user_id dependent_user_id =>
    g.RegisterDependencyByUserId parent_user_id dependent_user_id

def run (g : DependencyJobGraph J) (calls : List (Call J)) : Option (DependencyJobGraph J) :=
  calls.foldlM call g

def jobs (calls : List (Call J)) : List (JobGraphRegisterInfo J) :=
  calls.filterMap fun
    | .RegisterJob register_info => some register_info
    | .RegisterDependencyByUserId .. => none

def dependencies (calls : List (Call J)) : List (UserId × UserId) :=
  calls.filterMap fun
    | .RegisterJob _ => none
    | .RegisterDependencyByUserId parent_user_id dependent_user_id =>
      some (parent_user_id, dependent_user_id)

def userIds (infos : List (JobGraphRegisterInfo J)) : List UserId :=
  (infos.filter (·.enable_user_id)).map (·.user_id)

def userId? (g : DependencyJobGraph J) (register_id : RegisterId) : Option UserId :=
  (g.job_nodes.find? (·.register_id = register_id)).map (·.info.user_id)

def Resolved (g : DependencyJobGraph J) (dependencies : List (UserId × UserId)) : Prop :=
  (g.register_links.map fun link =>
      (g.userId? link.parent_register_id, g.userId? link.dependent_register_id)).Perm
    (dependencies.map fun (parent_user_id, dependent_user_id) =>
      (some parent_user_id, some dependent_user_id))

def JobsFirst (calls : List (Call J)) : Prop :=
  ∀ before parent_user_id dependent_user_id after,
    calls = before ++ .RegisterDependencyByUserId parent_user_id dependent_user_id :: after →
      parent_user_id ∈ userIds (jobs before) ∧ dependent_user_id ∈ userIds (jobs before)

section Resolving

variable {g : DependencyJobGraph J}

def Dangling (link : JobRegisterLink) : Prop := link.dependent_register_id = cInvalidRegisterId

instance (link : JobRegisterLink) : Decidable (Dangling link) :=
  inferInstanceAs (Decidable (link.dependent_register_id = cInvalidRegisterId))

structure ResolvesBadly (g g' : DependencyJobGraph J) (links links' : List JobUserLink) : Prop where
  extra : ∃ added, g' = { g with register_links := g.register_links ++ added } ∧
    (∀ link ∈ added, Dangling link) ∧
    links'.countP (·.has_register_link) = links.countP (·.has_register_link) + added.length
  ids : links'.map JobUserLink.userIds = links.map JobUserLink.userIds
  done : (∀ link ∈ links, link.has_register_link = true) → g' = g ∧ links' = links

theorem resolvesBadly_refl (g : DependencyJobGraph J) (links : List JobUserLink) :
    ResolvesBadly g g links links where
  extra := by
    refine ⟨[], ?_, fun link hlink => absurd hlink List.not_mem_nil, rfl⟩
    rw [List.append_nil]
  ids := rfl
  done _ := ⟨rfl, rfl⟩

theorem ResolvesBadly.cons {g₁ g₂ : DependencyJobGraph J} {link link' : JobUserLink}
    {links links' : List JobUserLink} (h : ResolvesBadly g g₁ [link] [link'])
    (h' : ResolvesBadly g₁ g₂ links links') :
    ResolvesBadly g g₂ (link :: links) (link' :: links') where
  extra := by
    obtain ⟨added, rfl, hdangling, hcount⟩ := h.extra
    obtain ⟨added', rfl, hdangling', hcount'⟩ := h'.extra
    refine ⟨added ++ added', ?_, ?_, ?_⟩
    · rw [← List.append_assoc]
    · intro l hl
      exact (List.mem_append.mp hl).elim (hdangling l) (hdangling' l)
    · have hsplit : ∀ (l : JobUserLink) (ls : List JobUserLink),
          (l :: ls).countP (·.has_register_link) = [l].countP (·.has_register_link) +
            ls.countP (·.has_register_link) := by
        intro l ls
        rw [← List.countP_append]
        rfl
      rw [hsplit, hcount, hcount', hsplit link links, List.length_append]
      omega
  ids := by
    have hhead : link'.userIds = link.userIds := (List.cons.inj h.ids).1
    rw [List.map_cons, List.map_cons, hhead, h'.ids]
  done hall := by
    obtain ⟨rfl, hlink⟩ := h.done fun l hl => hall l (by
      rw [List.mem_singleton.mp hl]
      exact List.mem_cons_self)
    obtain ⟨rfl, rfl⟩ := h'.done fun l hl => hall l (List.mem_cons_of_mem link hl)
    exact ⟨rfl, congrArg (· :: links') (List.cons.inj hlink).1⟩

theorem resolveLink_spec (g : DependencyJobGraph J) (user_id : UserId) (link : JobUserLink)
    (hroom : link.has_register_link = false →
      g.register_links.length < g.graph_info.max_link_count.toNat) :
    ∃ g' link', g.resolveLink user_id link = some (g', link') ∧
      ResolvesBadly g g' [link] [link'] := by
  unfold resolveLink
  by_cases hskip : link.has_register_link = true ∨
      (link.parent_user_id ≠ user_id ∧ link.parent_user_id ≠ user_id)
  · rw [if_pos hskip]
    exact ⟨g, link, rfl, resolvesBadly_refl g [link]⟩
  rw [if_neg hskip]
  dsimp only
  obtain ⟨hflag, hparent⟩ := not_or.mp hskip
  have hself : link.parent_user_id = user_id := by
    by_contra hne
    exact hparent ⟨hne, hne⟩
  rw [if_neg (not_not.mpr hself)]
  by_cases hother : g.user_id_to_register_id_map link.dependent_user_id ≠ cInvalidRegisterId
  · rw [if_pos hother]
    exact ⟨g, link, rfl, resolvesBadly_refl g [link]⟩
  rw [if_neg hother, RegisterDependency, if_pos (hroom (Bool.not_eq_true _ |>.mp hflag))]
  refine ⟨_, _, rfl, ⟨[_], rfl, ?_, ?_⟩, rfl, ?_⟩
  · intro added hadded
    rw [List.mem_singleton.mp hadded]
    exact not_not.mp hother
  · rw [List.countP_singleton, List.countP_singleton, if_pos rfl, if_neg hflag]
    rfl
  · intro hall
    exact absurd (hall link (List.mem_singleton_self link)) hflag

theorem resolveLinks_spec (g : DependencyJobGraph J) (user_id : UserId) (links : List JobUserLink)
    (hroom : g.register_links.length + links.length ≤
      g.graph_info.max_link_count.toNat + links.countP (·.has_register_link)) :
    ∃ g' links', g.resolveLinks user_id links = some (g', links') ∧
      ResolvesBadly g g' links links' := by
  induction links generalizing g with
  | nil => exact ⟨g, [], rfl, resolvesBadly_refl g []⟩
  | cons link links ih =>
    rw [List.countP_cons, List.length_cons] at hroom
    obtain ⟨g₁, link', hlink, hfirst⟩ := resolveLink_spec g user_id link (by
      intro hflag
      have hle : links.countP (·.has_register_link) ≤ links.length := List.countP_le_length
      rw [hflag, if_neg Bool.false_ne_true] at hroom
      omega)
    obtain ⟨added, hadded, hdangling, hcount⟩ := hfirst.extra
    obtain ⟨g₂, links', hlinks, hrest⟩ := ih g₁ (by
      have hle : [link'].countP (·.has_register_link) ≤ 1 := List.countP_le_length
      rw [hcount, List.countP_singleton] at hle
      rw [hadded, List.length_append]
      dsimp only
      omega)
    refine ⟨g₂, link' :: links', ?_, ?_⟩
    · unfold resolveLinks
      rw [hlink, Option.bind_some]
      dsimp only
      rw [hlinks]
      rfl
    · exact hfirst.cons hrest

end Resolving

theorem jobs_job (calls : List (Call J)) (info : JobGraphRegisterInfo J) :
    jobs (calls ++ [.RegisterJob info]) = jobs calls ++ [info] :=
  List.filterMap_append

theorem jobs_dependency (calls : List (Call J)) (u v : UserId) :
    jobs (calls ++ [.RegisterDependencyByUserId u v]) = jobs calls := by
  unfold jobs
  rw [List.filterMap_append]
  exact List.append_nil _

theorem dependencies_job (calls : List (Call J)) (info : JobGraphRegisterInfo J) :
    dependencies (calls ++ [.RegisterJob info]) = dependencies calls := by
  unfold dependencies
  rw [List.filterMap_append]
  exact List.append_nil _

theorem dependencies_dependency (calls : List (Call J)) (u v : UserId) :
    dependencies (calls ++ [.RegisterDependencyByUserId u v]) = dependencies calls ++ [(u, v)] :=
  List.filterMap_append

theorem userIds_append (infos infos' : List (JobGraphRegisterInfo J)) :
    userIds (infos ++ infos') = userIds infos ++ userIds infos' := by
  unfold userIds
  rw [List.filter_append, List.map_append]

theorem userIds_singleton (info : JobGraphRegisterInfo J) :
    userIds [info] = if info.enable_user_id then [info.user_id] else [] := by
  unfold userIds
  cases h : info.enable_user_id with
  | true => simp [h]
  | false => simp [h]

theorem JobsFirst.known {calls : List (Call J)} (h : JobsFirst calls) {u v : UserId}
    (hmem : (u, v) ∈ dependencies calls) :
    u ∈ userIds (jobs calls) ∧ v ∈ userIds (jobs calls) := by
  obtain ⟨c, hc, heq⟩ := List.mem_filterMap.mp hmem
  cases c with
  | RegisterJob info => cases heq
  | RegisterDependencyByUserId p d =>
    cases heq
    obtain ⟨before, after, rfl⟩ := List.append_of_mem hc
    obtain ⟨hu, hv⟩ := h before u v after rfl
    have hsplit : jobs (before ++ .RegisterDependencyByUserId u v :: after) =
        jobs before ++ jobs (.RegisterDependencyByUserId u v :: after) := List.filterMap_append
    rw [hsplit, userIds_append]
    exact ⟨List.mem_append_left _ hu, List.mem_append_left _ hv⟩

structure Inv (calls : List (Call J)) (g : DependencyJobGraph J) : Prop where
  infos : g.job_nodes.map (·.info) = jobs calls
  register_ids : g.job_nodes.map (·.register_id) =
    (List.range (jobs calls).length).map (BitVec.ofNat 16)
  iter : g.register_id_iter = BitVec.ofNat 16 (jobs calls).length
  /-- The map names the jobs that are registered. -/
  known : ∀ u ∈ userIds (jobs calls),
    ∃ node ∈ g.job_nodes, node.info.user_id = u ∧ g.user_id_to_register_id_map u = node.register_id
  unknown : ∀ u, u ∉ userIds (jobs calls) →
    g.user_id_to_register_id_map u = cInvalidRegisterId
  user_links : g.user_links.map JobUserLink.userIds = dependencies calls
  flags : g.register_links.length = g.user_links.countP (·.has_register_link)
  /-- With all jobs first every link is right. -/
  right : JobsFirst calls → (∀ link ∈ g.user_links, link.has_register_link = true) ∧
    g.register_links = (dependencies calls).map fun (parent_user_id, dependent_user_id) =>
      ⟨g.user_id_to_register_id_map parent_user_id, g.user_id_to_register_id_map dependent_user_id⟩
  /-- Otherwise one is missing, or leads to no job. -/
  wrong : ¬JobsFirst calls →
    g.register_links.countP (¬Dangling ·) < (dependencies calls).length

theorem inv_initialized (job_graph_info : DependencyJobGraphInfo) :
    Inv [] (initialized job_graph_info : DependencyJobGraph J) where
  infos := rfl
  register_ids := rfl
  iter := rfl
  known u hu := absurd hu List.not_mem_nil
  unknown _ _ := rfl
  user_links := rfl
  flags := rfl
  right _ := ⟨fun _ hlink => absurd hlink List.not_mem_nil, rfl⟩
  wrong h := by
    exfalso
    apply h
    intro before parent_user_id dependent_user_id after heq
    cases before <;> cases heq

theorem jobsFirst_append {calls : List (Call J)} {c : Call J} :
    JobsFirst (calls ++ [c]) ↔ JobsFirst calls ∧
      ∀ u v, c = .RegisterDependencyByUserId u v →
        u ∈ userIds (jobs calls) ∧ v ∈ userIds (jobs calls) := by
  constructor
  · intro h
    constructor
    · rintro before u v after rfl
      apply h before u v (after ++ [c])
      rw [List.append_assoc, List.cons_append]
    · rintro u v rfl
      exact h calls u v [] rfl
  · rintro ⟨hcalls, hlast⟩ before u v after heq
    obtain rfl | ⟨after, d, rfl⟩ := List.eq_nil_or_concat after
    · obtain ⟨rfl, hc⟩ := List.append_inj' heq rfl
      exact hlast u v (List.cons.inj hc).1
    · rw [List.concat_eq_append, ← List.cons_append, ← List.append_assoc] at heq
      obtain ⟨rfl, -⟩ := List.append_inj' heq rfl
      exact hcalls before u v after rfl

namespace Inv

variable {calls : List (Call J)} {g : DependencyJobGraph J}

theorem register_id_eq (h : Inv calls g) {node : JobGraphNode J} (hnode : node ∈ g.job_nodes) :
    ∃ k < (jobs calls).length, node.register_id = BitVec.ofNat 16 k := by
  have hmem : node.register_id ∈ g.job_nodes.map (·.register_id) :=
    List.mem_map_of_mem hnode
  rw [h.register_ids] at hmem
  obtain ⟨k, hk, heq⟩ := List.mem_map.mp hmem
  exact ⟨k, List.mem_range.mp hk, heq.symm⟩

theorem map_eq_invalid (h : Inv calls g) (hjobs : (jobs calls).length < 2 ^ 16) (u : UserId) :
    g.user_id_to_register_id_map u = cInvalidRegisterId ↔ u ∉ userIds (jobs calls) := by
  constructor
  · intro hmap hu
    obtain ⟨node, hnode, -, hid⟩ := h.known u hu
    obtain ⟨k, hk, heq⟩ := h.register_id_eq hnode
    rw [hid, heq] at hmap
    have hval := congrArg BitVec.toNat hmap
    rw [BitVec.toNat_ofNat] at hval
    change k % 2 ^ 16 = 0xffff at hval
    omega
  · exact h.unknown u

theorem flags_le (h : Inv calls g) : g.register_links.length ≤ (dependencies calls).length := by
  rw [h.flags, ← h.user_links, List.length_map]
  exact List.countP_le_length

theorem sound_le (h : Inv calls g) :
    g.register_links.countP (¬Dangling ·) ≤ (dependencies calls).length :=
  Nat.le_trans List.countP_le_length h.flags_le

theorem park (h : Inv calls g) {u v : UserId}
    (hnot : ¬(u ∈ userIds (jobs calls) ∧ v ∈ userIds (jobs calls))) :
    Inv (calls ++ [.RegisterDependencyByUserId u v])
      { g with user_links := g.user_links ++ [⟨u, v, false⟩] } where
  infos := by rw [jobs_dependency, ← h.infos]
  register_ids := by rw [jobs_dependency, ← h.register_ids]
  iter := by rw [jobs_dependency, ← h.iter]
  known := by
    rw [jobs_dependency]
    exact h.known
  unknown := by
    rw [jobs_dependency]
    exact h.unknown
  user_links := by
    rw [dependencies_dependency, ← h.user_links, List.map_append]
    rfl
  flags := by
    rw [List.countP_append]
    exact h.flags
  right hfirst := absurd ((jobsFirst_append.mp hfirst).2 u v rfl) hnot
  wrong _ := by
    rw [dependencies_dependency, List.length_append]
    exact Nat.lt_succ_of_le h.sound_le

theorem link (h : Inv calls g) {u v : UserId}
    (hu : u ∈ userIds (jobs calls)) (hv : v ∈ userIds (jobs calls)) :
    Inv (calls ++ [.RegisterDependencyByUserId u v])
      { g with
        register_links := g.register_links ++
          [⟨g.user_id_to_register_id_map u, g.user_id_to_register_id_map v⟩]
        user_links := g.user_links ++ [⟨u, v, true⟩] } where
  infos := by rw [jobs_dependency, ← h.infos]
  register_ids := by rw [jobs_dependency, ← h.register_ids]
  iter := by rw [jobs_dependency, ← h.iter]
  known := by
    rw [jobs_dependency]
    exact h.known
  unknown := by
    rw [jobs_dependency]
    exact h.unknown
  user_links := by
    rw [dependencies_dependency, ← h.user_links, List.map_append]
    rfl
  flags := by
    rw [List.countP_append, List.length_append, h.flags]
    rfl
  right hfirst := by
    obtain ⟨hflags, hlinks⟩ := h.right (jobsFirst_append.mp hfirst).1
    constructor
    · intro l hl
      obtain hl | hl := List.mem_append.mp hl
      · exact hflags l hl
      · rw [List.mem_singleton.mp hl]
    · rw [dependencies_dependency, List.map_append, hlinks]
      rfl
  wrong hnot := by
    have hcalls : ¬JobsFirst calls := by
      intro hcalls
      apply hnot
      apply jobsFirst_append.mpr
      refine ⟨hcalls, fun u' v' heq => ?_⟩
      cases heq
      exact ⟨hu, hv⟩
    have hlt := h.wrong hcalls
    have hlast : [(⟨g.user_id_to_register_id_map u, g.user_id_to_register_id_map v⟩ :
        JobRegisterLink)].countP (¬Dangling ·) ≤ 1 := List.countP_le_length
    rw [dependencies_dependency, List.countP_append, List.length_append, List.length_singleton]
    omega

theorem dependency (h : Inv calls g) (hjobs : (jobs calls).length < 2 ^ 16)
    (hlinks : (dependencies calls).length < g.graph_info.max_link_count.toNat) (u v : UserId) :
    ∃ g', g.call (.RegisterDependencyByUserId u v) = some g' ∧ g'.graph_info = g.graph_info ∧
      Inv (calls ++ [.RegisterDependencyByUserId u v]) g' := by
  have hle := h.flags_le
  have hcount : g.user_links.length = (dependencies calls).length := by
    rw [← h.user_links, List.length_map]
  unfold call RegisterDependencyByUserId
  dsimp only
  rw [if_pos (by omega)]
  by_cases hu : g.user_id_to_register_id_map u = cInvalidRegisterId
  · rw [if_pos hu]
    refine ⟨_, rfl, rfl, h.park fun hboth => ?_⟩
    exact (h.map_eq_invalid hjobs u).mp hu hboth.1
  rw [if_neg hu]
  by_cases hv : g.user_id_to_register_id_map v = cInvalidRegisterId
  · rw [if_pos hv]
    refine ⟨_, rfl, rfl, h.park fun hboth => ?_⟩
    exact (h.map_eq_invalid hjobs v).mp hv hboth.2
  rw [if_neg hv, RegisterDependency, if_pos (by omega)]
  rw [h.map_eq_invalid hjobs, not_not] at hu hv
  exact ⟨_, rfl, rfl, h.link hu hv⟩

theorem register (h : Inv calls g) {map : UserId → RegisterId} {links : List JobUserLink}
    (info : JobGraphRegisterInfo J) (added : List JobRegisterLink)
    (hnew : info.enable_user_id = true → info.user_id ∉ userIds (jobs calls))
    (hmap : map = if info.enable_user_id then
      Function.update g.user_id_to_register_id_map info.user_id g.register_id_iter
      else g.user_id_to_register_id_map)
    (hdangling : ∀ link ∈ added, Dangling link)
    (hcount : links.countP (·.has_register_link) =
      g.user_links.countP (·.has_register_link) + added.length)
    (hids : links.map JobUserLink.userIds = g.user_links.map JobUserLink.userIds)
    (hdone : (∀ link ∈ g.user_links, link.has_register_link = true) →
      added = [] ∧ links = g.user_links) :
    Inv (calls ++ [.RegisterJob info])
      { g with
        job_nodes := g.job_nodes ++ [⟨info, g.register_id_iter⟩]
        register_links := g.register_links ++ added
        user_links := links
        register_id_iter := g.register_id_iter + 1
        user_id_to_register_id_map := map } := by
  have hold : ∀ u ∈ userIds (jobs calls), map u = g.user_id_to_register_id_map u := by
    intro u hu
    rw [hmap]
    by_cases henable : info.enable_user_id = true
    · rw [if_pos henable, Function.update_of_ne]
      rintro rfl
      exact hnew henable hu
    · rw [if_neg henable]
  constructor
  · rw [jobs_job, List.map_append, h.infos]
    rfl
  · rw [jobs_job, List.map_append, h.register_ids, List.length_append, List.length_singleton,
      List.range_succ, List.map_append, h.iter]
    rfl
  · rw [jobs_job, List.length_append, List.length_singleton, BitVec.ofNat_add, h.iter]
    rfl
  · intro u hu
    rw [jobs_job, userIds_append, userIds_singleton] at hu
    obtain hu | hu := List.mem_append.mp hu
    · obtain ⟨node, hnode, huser, hid⟩ := h.known u hu
      exact ⟨node, List.mem_append_left _ hnode, huser, (hold u hu).trans hid⟩
    · by_cases henable : info.enable_user_id = true
      · rw [if_pos henable, List.mem_singleton] at hu
        refine ⟨_, List.mem_append_right _ (List.mem_singleton_self _), hu.symm, ?_⟩
        dsimp only
        rw [hmap, if_pos henable, hu, Function.update_self]
      · rw [if_neg henable] at hu
        exact absurd hu List.not_mem_nil
  · intro u hu
    rw [jobs_job, userIds_append, userIds_singleton, List.mem_append, not_or] at hu
    dsimp only
    rw [← h.unknown u hu.1, hmap]
    by_cases henable : info.enable_user_id = true
    · rw [if_pos henable, List.mem_singleton] at hu
      rw [if_pos henable, Function.update_of_ne hu.2]
    · rw [if_neg henable]
  · rw [dependencies_job, ← h.user_links, hids]
  · rw [List.length_append, h.flags]
    exact hcount.symm
  · intro hfirst
    have hcalls := (jobsFirst_append.mp hfirst).1
    obtain ⟨hflags, hlinks⟩ := h.right hcalls
    obtain ⟨rfl, rfl⟩ := hdone hflags
    refine ⟨hflags, ?_⟩
    rw [dependencies_job, List.append_nil, hlinks]
    apply List.map_congr_left
    rintro ⟨u, v⟩ hmem
    obtain ⟨hu, hv⟩ := hcalls.known hmem
    dsimp only
    rw [hold u hu, hold v hv]
  · intro hnot
    have hcalls : ¬JobsFirst calls := by
      intro hcalls
      apply hnot
      apply jobsFirst_append.mpr
      refine ⟨hcalls, fun u v heq => ?_⟩
      cases heq
    have hnone : added.countP (¬Dangling ·) = 0 := by
      apply List.countP_eq_zero.mpr
      intro l hl
      rw [decide_eq_true_eq, not_not]
      exact hdangling l hl
    rw [dependencies_job, List.countP_append, hnone]
    exact h.wrong hcalls

theorem job (h : Inv calls g)
    (hjobs : (jobs calls).length < g.graph_info.max_job_count.toNat)
    (hlinks : (dependencies calls).length ≤ g.graph_info.max_link_count.toNat)
    (info : JobGraphRegisterInfo J)
    (hnew : info.enable_user_id = true → info.user_id ∉ userIds (jobs calls)) :
    ∃ g', g.call (.RegisterJob info) = some g' ∧ g'.graph_info = g.graph_info ∧
      Inv (calls ++ [.RegisterJob info]) g' := by
  have hroom : g.job_nodes.length < g.graph_info.max_job_count.toNat := by
    rw [← List.length_map (·.info), h.infos]
    exact hjobs
  unfold call RegisterJob
  dsimp only
  rw [if_pos hroom]
  by_cases henable : info.enable_user_id = false
  · rw [if_pos henable]
    refine ⟨_, rfl, rfl, ?_⟩
    have hinv := h.register info [] hnew rfl
      (fun link hlink => absurd hlink List.not_mem_nil) rfl rfl (fun _ => ⟨rfl, rfl⟩)
    rw [if_neg (ne_true_of_eq_false henable), List.append_nil] at hinv
    exact hinv
  · rw [if_neg henable]
    have hcount : g.user_links.length = (dependencies calls).length := by
      rw [← h.user_links, List.length_map]
    have hflags := h.flags
    obtain ⟨g', links, heq, hbad⟩ := resolveLinks_spec
      { g with
        job_nodes := g.job_nodes ++ [⟨info, g.register_id_iter⟩]
        register_id_iter := g.register_id_iter + 1
        user_id_to_register_id_map :=
          Function.update g.user_id_to_register_id_map info.user_id g.register_id_iter }
      info.user_id g.user_links (by dsimp only; omega)
    rw [heq]
    obtain ⟨added, rfl, hdangling, hadded⟩ := hbad.extra
    refine ⟨_, rfl, rfl, ?_⟩
    have hinv := h.register info added hnew rfl hdangling hadded hbad.ids fun hall => by
      obtain ⟨hsame, hlinks⟩ := hbad.done hall
      have happ := congrArg register_links hsame
      exact ⟨List.append_right_eq_self.mp happ, hlinks⟩
    rw [if_pos (Bool.not_eq_false _ |>.mp henable)] at hinv
    exact hinv

end Inv

namespace Inv

variable {calls : List (Call J)} {g : DependencyJobGraph J}

theorem userId?_eq (h : Inv calls g) (hjobs : (jobs calls).length < 2 ^ 16) {node : JobGraphNode J}
    (hnode : node ∈ g.job_nodes) : g.userId? node.register_id = some node.info.user_id := by
  have hnodup : (g.job_nodes.map (·.register_id)).Nodup := by
    rw [h.register_ids]
    apply List.Nodup.map_on _ List.nodup_range
    intro i hi k hk heq
    have hval := congrArg BitVec.toNat heq
    rw [List.mem_range] at hi hk
    rw [BitVec.toNat_ofNat, BitVec.toNat_ofNat] at hval
    omega
  unfold userId?
  obtain ⟨found, hfound⟩ : ∃ found,
      g.job_nodes.find? (fun n => n.register_id = node.register_id) = some found := by
    apply Option.isSome_iff_exists.mp
    rw [List.find?_isSome]
    exact ⟨node, hnode, decide_eq_true rfl⟩
  have hid : found.register_id = node.register_id := by
    have hfind := List.find?_some hfound
    exact of_decide_eq_true hfind
  have hsame := List.inj_on_of_nodup_map hnodup (List.mem_of_find?_eq_some hfound) hnode hid
  rw [hfound, hsame]
  rfl

theorem userId?_known (h : Inv calls g) (hjobs : (jobs calls).length < 2 ^ 16) {u : UserId}
    (hu : u ∈ userIds (jobs calls)) : g.userId? (g.user_id_to_register_id_map u) = some u := by
  obtain ⟨node, hnode, huser, hid⟩ := h.known u hu
  rw [hid, h.userId?_eq hjobs hnode, huser]

theorem userId?_invalid (h : Inv calls g) (hjobs : (jobs calls).length < 2 ^ 16) :
    g.userId? cInvalidRegisterId = none := by
  unfold userId?
  rw [Option.map_eq_none_iff, List.find?_eq_none]
  intro node hnode hid
  obtain ⟨k, hk, heq⟩ := h.register_id_eq hnode
  rw [of_decide_eq_true hid] at heq
  have hval := congrArg BitVec.toNat heq
  rw [BitVec.toNat_ofNat] at hval
  change 0xffff = k % 2 ^ 16 at hval
  omega

theorem resolved_iff (h : Inv calls g) (hjobs : (jobs calls).length < 2 ^ 16) :
    Resolved g (dependencies calls) ↔ JobsFirst calls := by
  constructor
  · intro hresolved
    by_contra hnot
    have hlt := h.wrong hnot
    have hlength := hresolved.length_eq
    rw [List.length_map, List.length_map] at hlength
    have hall : g.register_links.countP (¬Dangling ·) = g.register_links.length := by
      apply List.countP_eq_length.mpr
      intro link hlink
      rw [decide_eq_true_eq]
      intro hdangling
      -- a dangling link is none of the dependencies
      have hmem := hresolved.mem_iff.mp (List.mem_map_of_mem hlink)
      obtain ⟨⟨u, v⟩, -, heq⟩ := List.mem_map.mp hmem
      have hnone : some v = g.userId? link.dependent_register_id := (Prod.mk.inj heq).2
      rw [show link.dependent_register_id = cInvalidRegisterId from hdangling,
        h.userId?_invalid hjobs] at hnone
      cases hnone
    omega
  · intro hfirst
    unfold Resolved
    rw [(h.right hfirst).2, List.map_map]
    have hsame : (dependencies calls).map ((fun link : JobRegisterLink =>
          (g.userId? link.parent_register_id, g.userId? link.dependent_register_id)) ∘
        fun (u, v) => ⟨g.user_id_to_register_id_map u, g.user_id_to_register_id_map v⟩) =
        (dependencies calls).map fun (u, v) => (some u, some v) := by
      apply List.map_congr_left
      rintro ⟨u, v⟩ hmem
      obtain ⟨hu, hv⟩ := hfirst.known hmem
      dsimp only [Function.comp]
      rw [h.userId?_known hjobs hu, h.userId?_known hjobs hv]
    rw [hsame]

end Inv

theorem run_append (g : DependencyJobGraph J) (calls : List (Call J)) (c : Call J) :
    g.run (calls ++ [c]) = (g.run calls).bind (·.call c) := by
  unfold run
  rw [List.foldlM_append]
  cases calls.foldlM call g with
  | none => rfl
  | some g =>
    rw [Option.bind_eq_bind, Option.bind_some, Option.bind_some, List.foldlM_cons]
    cases g.call c with
    | none => rfl
    | some g => rfl

theorem run_inv (job_graph_info : DependencyJobGraphInfo) (calls : List (Call J))
    (hids : (userIds (jobs calls)).Nodup)
    (hjobs : (jobs calls).length ≤ job_graph_info.max_job_count.toNat)
    (hlinks : (dependencies calls).length ≤ job_graph_info.max_link_count.toNat) :
    ∃ g, (initialized job_graph_info).run calls = some g ∧ g.graph_info = job_graph_info ∧
      Inv calls g := by
  have hlt := job_graph_info.max_job_count.isLt
  induction calls using List.reverseRecOn with
  | nil => exact ⟨_, rfl, rfl, inv_initialized job_graph_info⟩
  | append_singleton calls c ih =>
    rw [run_append]
    cases c with
    | RegisterJob info =>
      rw [jobs_job, userIds_append, userIds_singleton] at hids
      rw [jobs_job, List.length_append, List.length_singleton] at hjobs
      rw [dependencies_job] at hlinks
      obtain ⟨hold, -, hdisjoint⟩ := List.nodup_append.mp hids
      obtain ⟨g, hrun, hinfo, h⟩ := ih hold (by omega) hlinks
      obtain ⟨g', hcall, hinfo', h'⟩ := h.job (by rw [hinfo]; omega) (by rw [hinfo]; exact hlinks)
        info fun henable hmem => hdisjoint _ hmem info.user_id (by
          rw [if_pos henable]
          exact List.mem_singleton_self _) rfl
      rw [hrun]
      exact ⟨g', hcall, hinfo'.trans hinfo, h'⟩
    | RegisterDependencyByUserId u v =>
      rw [jobs_dependency] at hids hjobs
      rw [dependencies_dependency, List.length_append, List.length_singleton] at hlinks
      obtain ⟨g, hrun, hinfo, h⟩ := ih hids hjobs (by omega)
      obtain ⟨g', hcall, hinfo', h'⟩ := h.dependency (by omega) (by rw [hinfo]; omega) u v
      rw [hrun]
      exact ⟨g', hcall, hinfo'.trans hinfo, h'⟩

/-- For all jobs with distinct user ids and all dependencies between them that there is room for, in
every order, the links are right exactly if each dependency is registered behind its jobs. -/
theorem links_resolved_iff (job_graph_info : DependencyJobGraphInfo) (calls : List (Call J))
    (hids : (userIds (jobs calls)).Nodup)
    (hjobs : (jobs calls).length ≤ job_graph_info.max_job_count.toNat)
    (hlinks : (dependencies calls).length ≤ job_graph_info.max_link_count.toNat) :
    ∃ g, (initialized job_graph_info).run calls = some g ∧
      (Resolved g (dependencies calls) ↔ JobsFirst calls) := by
  obtain ⟨g, hrun, -, h⟩ := run_inv job_graph_info calls hids hjobs hlinks
  have hlt := job_graph_info.max_job_count.isLt
  exact ⟨g, hrun, h.resolved_iff (by omega)⟩

def plainJob (user_id : UserId) : JobGraphRegisterInfo Unit where
  job := ()
  is_runnable := true
  enable_user_id := true
  user_id := user_id
  is_multi_run_complete_once := false
  multi_run_count := 1
  core_number := 0x41
  priority := 0x80

theorem links_resolved_iff_two :
    ∃ g, (initialized ⟨2, 1⟩).run [.RegisterJob (plainJob 1), .RegisterJob (plainJob 2),
        .RegisterDependencyByUserId 1 2] = some g ∧
      (Resolved g (dependencies [.RegisterJob (plainJob 1), .RegisterJob (plainJob 2),
          .RegisterDependencyByUserId 1 2]) ↔
        JobsFirst [.RegisterJob (plainJob 1), .RegisterJob (plainJob 2),
          .RegisterDependencyByUserId 1 2]) :=
  links_resolved_iff ⟨2, 1⟩ _ (by decide) (by decide) (by decide)

theorem parked_not_resolved :
    ∃ g, (initialized ⟨2, 1⟩).run [.RegisterDependencyByUserId 1 2, .RegisterJob (plainJob 1),
        .RegisterJob (plainJob 2)] = some g ∧ ¬Resolved g [(1, 2)] := by
  have hlinks : ((initialized ⟨2, 1⟩).run [.RegisterDependencyByUserId 1 2,
      .RegisterJob (plainJob 1), .RegisterJob (plainJob 2)]).map (fun g =>
        g.register_links.map fun link =>
          (g.userId? link.parent_register_id, g.userId? link.dependent_register_id)) =
      some [(some 1, none)] := by decide
  obtain ⟨g, hrun, heq⟩ := Option.map_eq_some_iff.mp hlinks
  refine ⟨g, hrun, fun hresolved => ?_⟩
  unfold Resolved at hresolved
  rw [heq] at hresolved
  cases List.perm_singleton.mp hresolved.symm

end DependencyJobGraph

end Awn
