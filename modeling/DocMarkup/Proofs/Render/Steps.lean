import DocMarkup.Proofs.Render.Hiding

/-!
A tree is rendered leaf by leaf, with something written in front of the nodes below a composite node
and something behind them.  What all these steps keep, the rendering of a tree keeps.
-/

namespace DocMarkup.Rendering

variable {context : RenderContext} {P : Rendering → Prop} {Q : Node → Prop}

theorem nodes_preserve {nodes : List Node} (hnodes : ∀ n ∈ nodes, ∀ way r, P r → P (node context way r n))
    {place : Nat → Way} {index : Nat} {r : Rendering} (h : P r) :
    P (Rendering.nodes context place index r nodes) := by
  induction nodes generalizing index r with
  | nil => exact h
  | cons n rest ih =>
      obtain ⟨hn, hrest⟩ := List.forall_mem_cons.1 hnodes
      rw [Rendering.nodes]
      exact ih hrest (hn _ r h)

theorem node_preserves
    (hleaf : ∀ way r (n : Node), Q n → P r → P (r.leaf context way n.content))
    (henter : ∀ way r (n : Node), n.Everywhere Q → P r → P (r.enter context way n))
    (hleave : ∀ way r (n : Node), n.Everywhere Q → P r → P (r.leave context way n))
    {n : Node} (hn : n.Everywhere Q) (way : Way) (r : Rendering) (h : P r) :
    P (node context way r n) := by
  induction n using Node.part_induct generalizing way r with
  | node n ih =>
      by_cases hcomposite : n.kind.isComposite = true
      · have hbelow : P (below context way (r.enter context way n) n) := by
          have hentered := henter way r n hn h
          have hheads : ∀ head ∈ n.heads, ∀ way r, P r → P (node context way r head) :=
            fun head hhead => ih head (Node.mem_parts.2 (.inr (.inl hhead))) (hn.head hhead)
          have hchildren : ∀ child ∈ n.children, ∀ way r, P r → P (node context way r child) :=
            fun child hchild => ih child (Node.mem_parts.2 (.inr (.inr hchild))) (hn.child hchild)
          unfold below
          dsimp only
          apply nodes_preserve hchildren
          split
          · exact hentered
          · exact nodes_preserve hheads hentered
        rw [node_composite hcomposite]
        exact hleave way _ n hn hbelow
      · rw [node_leaf (Bool.not_eq_true _ ▸ hcomposite)]
        exact hleaf way r n hn.here h

end DocMarkup.Rendering
