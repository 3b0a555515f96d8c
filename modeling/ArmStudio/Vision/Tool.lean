import ArmStudio.Vision.Mark
import ArmStudio.Vision.Picture
import ArmStudio.Vision.Library

/-!
# Tools

The operations on pictures that are asked of the picture library, by the names it knows them by.
-/

namespace ArmStudio.Vision

/-- An operation on pictures, outlines or the screen. -/
inductive Tool where
  | convert
  | blur
  | edges
  | widen
  | contours
  | threshold
  | thin
  | area
  | perimeter
  | convex
  | inside
  | bounds
  | overlap
  | tightBox
  | perspective
  | warp
  | resize
  | rectangle
  | text
  | textSize
  | showWindow
  | save
  | waitKey
  | closeWindows
  | line
  | arrow
  | marker
  | circle
  | polylines
  | drawContours
  | blend
  | scale
  | equaliser
  | morphology
  | adaptive
  | flow
  | features
  | matcher
  | shift
  | normalize
  | convolve
  | divide
  | camera
  | upload
  | download
  | deviceConvert
  | deviceBlur
  | deviceThreshold
  | deviceEdges
  | deviceEqualiser
  | submit
  | present
  deriving DecidableEq

def Tool.name : Tool → String
  | convert => "cvtColor"
  | blur => "GaussianBlur"
  | edges => "Canny"
  | widen => "dilate"
  | contours => "findContours"
  | threshold => "threshold"
  | thin => "approxPolyDP"
  | area => "contourArea"
  | perimeter => "arcLength"
  | convex => "isContourConvex"
  | inside => "pointPolygonTest"
  | bounds => "boundingRect"
  | overlap => "intersectConvexConvex"
  | tightBox => "minAreaRect"
  | perspective => "getPerspectiveTransform"
  | warp => "warpPerspective"
  | resize => "resize"
  | rectangle => "rectangle"
  | text => "putText"
  | textSize => "getTextSize"
  | showWindow => "imshow"
  | save => "imwrite"
  | waitKey => "waitKey"
  | closeWindows => "destroyAllWindows"
  | line => "line"
  | arrow => "arrowedLine"
  | marker => "drawMarker"
  | circle => "circle"
  | polylines => "polylines"
  | drawContours => "drawContours"
  | blend => "addWeighted"
  | scale => "convertScaleAbs"
  | equaliser => "createCLAHE"
  | morphology => "morphologyEx"
  | adaptive => "adaptiveThreshold"
  | flow => "calcOpticalFlowFarneback"
  | features => "ORB_create"
  | matcher => "BFMatcher"
  | shift => "warpAffine"
  | normalize => "normalize"
  | convolve => "filter2D"
  | divide => "divide"
  | camera => "VideoCapture"
  | upload => "upload"
  | download => "download"
  | deviceConvert => "cuda.cvtColor"
  | deviceBlur => "cuda.GaussianBlur"
  | deviceThreshold => "cuda.threshold"
  | deviceEdges => "cuda.createCannyEdgeDetector"
  | deviceEqualiser => "cuda.createCLAHE"
  | submit => "submit"
  | present => "set_image"

/-- Whether a tool can fail; measuring texts, windows and what follows motion cannot. -/
def Tool.canFail : Tool → Bool
  | flow | features | matcher | shift | normalize | textSize | showWindow | save | waitKey
  | closeWindows | upload | download => false
  | _ => true

end ArmStudio.Vision
