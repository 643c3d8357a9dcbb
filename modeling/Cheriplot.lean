import Cheriplot.Model.Graph
import Cheriplot.Model.Record
import Cheriplot.Parser.RegisterSet
import Cheriplot.Parser.Handlers
import Cheriplot.Parser.Subparsers
import Cheriplot.Parser.Scan
import Cheriplot.Merge.Transform
import Cheriplot.Merge.Driver
import Cheriplot.Worker.Shape
import Cheriplot.Worker.Invariant
import Cheriplot.Worker.Step
import Cheriplot.Worker.Derivation
import Cheriplot.Worker.Events
import Cheriplot.Worker.Memory
import Cheriplot.Worker.InitialMap
import Cheriplot.Worker.Subparsers
import Cheriplot.Worker.SubparserRuns
import Cheriplot.Merge.Forest
import Cheriplot.Merge.Invariant
import Cheriplot.Merge.Walk
import Cheriplot.Merge.Correctness
import Cheriplot.Merge.Fusion
import Cheriplot.Merge.Embedding
import Cheriplot.Merge.Handoff
