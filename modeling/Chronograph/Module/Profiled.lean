import Chronograph.Module.Assembly

/-!
# Accepted graphs

A graph that has been found to have an output, with the options it is generated
with.  From such a pair a unit can fail to come only by its other tensors.
-/

namespace Chronograph

/-- A graph that is accepted, and options. -/
structure ProfiledGraph where
  graph : Graph
  options : Options := {}
  /-- The tensor that the emitted routine returns. -/
  output : Tensor
  accepted : graph.output = .ok output

namespace ProfiledGraph

/-- An accepted graph with the default options, or the reason why the graph is
not accepted. -/
def ofGraph (g : Graph) : Except GraphFault ProfiledGraph :=
  match h : g.output with
  | .ok output => .ok { graph := g, output, accepted := h }
  | .error fault => .error fault

def withOptions (p : ProfiledGraph) (options : Options) : ProfiledGraph := { p with options }

/-- The unit of an accepted graph. -/
def assemble (p : ProfiledGraph) : Traced GraphFault CodeUnit :=
  Chronograph.assemble p.graph p.options

/-- The text of the module for an accepted graph. -/
def generate (p : ProfiledGraph) : Traced GenerationFault String :=
  Chronograph.generate p.graph p.options

end ProfiledGraph

end Chronograph
